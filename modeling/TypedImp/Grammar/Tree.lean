import TypedImp.Grammar.Rule
import TypedImp.Program.Basic
import TypedImp.Parser.Error
import TypedImp.Word

/-! Derivation trees and the programs that they mean. A tree of a symbol has a value of that symbol's
    type. Names of types and integer literals are judged here, and not by the grammar: parts before the
    whole, and from the left to the right.

    In this order a transformer of Lark 1.3.1 calls its methods, after the whole text has been parsed; the first
    one that fails ends it (`Forest.values`). Lark shapes its trees by the grammar before: it drops the literals
    of the grammar, puts the parts of a repetition into the rule around it, and leaves out a rule that is
    marked to be when it has one child. Here the tree is the whole derivation, and `Rule.build` picks out what
    such a tree would hand over. -/

namespace TypedImp
namespace Grammar

/-! ### Trees -/

mutual
/-- A derivation from a symbol. --/
inductive Tree : Symbol → Type where
  | leaf (l : Lexeme) : Tree (.terminal l.terminal)
  | node (r : Rule) (children : Forest r.rhs) : Tree (.nonterminal r.lhs)

/-- Derivations from the symbols of a list. --/
inductive Forest : List Symbol → Type where
  | nil : Forest []
  | cons {s : Symbol} {ss : List Symbol} (tree : Tree s) (trees : Forest ss) : Forest (s :: ss)
end

mutual
/-- The lexemes at the leaves. --/
def Tree.yield {s : Symbol} : Tree s → List Lexeme
  | .leaf l => [l]
  | .node _ children => children.yield

def Forest.yield {ss : List Symbol} : Forest ss → List Lexeme
  | .nil => []
  | .cons tree trees => tree.yield ++ trees.yield
end

/-! ### Values -/

/-- What a derivation from a nonterminal means. The tail of a level is a list of operators, each with
    its right operand. --/
def Nonterminal.Value : Nonterminal → Type
  | root => Program
  | start => Program
  | statements => List Stmt
  | statement => Stmt
  | form _ => Stmt
  | forInit => Stmt
  | forStep => Stmt
  | param => Param
  | paramTail => List Param
  | block => List Stmt
  | expr => Expr
  | level _ => Expr
  | levelTail _ => List (BinaryOp × Expr)
  | unary => Expr
  | primary => Expr
  | argumentTail => List Expr

def Symbol.Value : Symbol → Type
  | terminal _ => Lexeme
  | nonterminal n => n.Value

/-- A value for each symbol of a list. --/
def Values : List Symbol → Type
  | [] => Unit
  | s :: ss => s.Value × Values ss

/-- The type that a lexeme names. --/
def typeNamed (read : String → Option Ty) (l : Lexeme) : Except ParseError Ty :=
  match read l.text with
  | some ty => .ok ty
  | none => .error (.unknownType l.text l.position)

def intLiteral (l : Lexeme) : Except ParseError Expr :=
  match Decimal.integer l.text with
  | .error .malformed => .error (.malformedInteger l.text)
  | .error (.tooLong digits) => .error (.literalTooLong digits)
  | .ok n =>
    if Word.maximum < n then .error (.integerOutOfRange l.text l.position) else .ok (.literal (.int n))

def floatLiteral (l : Lexeme) : Except ParseError Expr :=
  match Decimal.number? l.text with
  | none => .error (.malformedNumber l.text)
  | some x => .ok (.literal (.float x))

/-- The text without its first and its last character. --/
def unwrapped (text : String) : List Char := (text.toList.drop 1).dropLast

/-- Every backslash in front of a double quote goes away. --/
def unescaped : List Char → List Char
  | [] => []
  | c :: cs =>
    if c = '\\' then
      match cs with
      | '\x22' :: cs => '\x22' :: unescaped cs
      | cs => '\\' :: unescaped cs
    else c :: unescaped cs

/-- Operators of one level associate to the left. --/
def chained (first : Expr) (rest : List (BinaryOp × Expr)) : Expr :=
  rest.foldl (fun left r => .binary left r.1 r.2) first

/-- An operand of any level is an expression. --/
def Level.operandValue : (l : Level) → l.operand.Value → Expr
  | or, e | and, e | equality, e | relational, e | additive, e | multiplicative, e => e

/-- The operator that a lexeme writes. --/
def Lexeme.binaryOp (l : Lexeme) : BinaryOp := BinaryOp.ofText l.text

/-- A function; its result type is judged after its parameters and its body. --/
def functionOf (name : Lexeme) (params : List Param) (result : Lexeme) (body : List Stmt) :
    Except ParseError Stmt := do
  let ty ← typeNamed Ty.ofName? result
  .ok (.function name.text params ty body)

/-- The value of what a rule defines, from the values of what it puts in its place. --/
def Rule.build : (r : Rule) → Values r.rhs → Except ParseError r.lhs.Value
  | root, (p, _) => .ok p
  | startNone, _ => .ok (⟨[]⟩ : Program)
  | startSome, (body, _) => .ok (⟨body⟩ : Program)
  | statementsOne, (s, _) => .ok [s]
  | statementsMore, (ss, s, _) => .ok (List.append ss [s])
  | statement _, (s, _) => .ok s
  | varDecl, (_, name, _, type, _, _) => do
    let ty ← typeNamed Ty.ofValueName? type
    .ok (Stmt.varDecl name.text ty none)
  | varDeclInit, (_, name, _, type, _, e, _, _) => do
    let ty ← typeNamed Ty.ofValueName? type
    .ok (Stmt.varDecl name.text ty (some e))
  | assignment, (name, _, e, _, _) => .ok (Stmt.assign name.text e)
  | print, (_, _, e, _, _, _) => .ok (Stmt.print e)
  | input, (_, _, name, _, _, _) => .ok (Stmt.input name.text)
  | ifThen, (_, _, cond, _, body, _) => .ok (Stmt.ifThen cond body)
  | ifElse, (_, _, cond, _, yes, _, no, _) => .ok (Stmt.ifElse cond yes no)
  | whileLoop, (_, _, cond, _, body, _) => .ok (Stmt.whileLoop cond body)
  | forLoop, (_, _, init, cond, _, step, _, body, _) => .ok (Stmt.forLoop init cond step body)
  | forInitDecl, (s, _) => .ok s
  | forInitAssign, (s, _) => .ok s
  | stepAssign, (name, _, e, _) => .ok (Stmt.assign name.text e)
  | stepAssignClosed, (name, _, e, _, _) => .ok (Stmt.assign name.text e)
  | stepExpr, (e, _) => .ok (Stmt.expr e)
  | stepExprClosed, (e, _, _) => .ok (Stmt.expr e)
  | functionNone, (_, name, _, _, _, type, body, _) => functionOf name [] type body
  | functionOne, (_, name, _, p, _, _, type, body, _) => functionOf name [p] type body
  | functionMore, (_, name, _, p, ps, _, _, type, body, _) => functionOf name (p :: ps) type body
  | paramTailOne, (_, p, _) => .ok [p]
  | paramTailMore, (ps, _, p, _) => .ok (List.append ps [p])
  | param, (name, _, type, _) => do
    let ty ← typeNamed Ty.ofValueName? type
    .ok (⟨name.text, ty⟩ : Param)
  | returnNone, _ => .ok (Stmt.ret none)
  | returnSome, (_, e, _, _) => .ok (Stmt.ret (some e))
  | exprStatement, (e, _, _) => .ok (Stmt.expr e)
  | blockNone, _ => .ok ([] : List Stmt)
  | blockSome, (_, ss, _, _) => .ok ss
  | expr, (e, _) => .ok e
  | levelOne l, (e, _) => .ok (l.operandValue e)
  | levelMore l, (e, rest, _) => .ok (chained (l.operandValue e) rest)
  | levelTailOne l, (op, e, _) => .ok [(op.binaryOp, l.operandValue e)]
  | levelTailMore l, (rest, op, e, _) => .ok (List.append rest [(op.binaryOp, l.operandValue e)])
  | signed, (op, e, _) => .ok (Expr.unary (UnaryOp.ofText op.text) e)
  | unsigned, (e, _) => .ok e
  | int, (l, _) => intLiteral l
  | float, (l, _) => floatLiteral l
  | bool, (l, _) => .ok (Expr.literal (.bool (l.text == "true")))
  | char, (l, _) => .ok (Expr.literal (.char (String.ofList (unwrapped l.text))))
  | string, (l, _) => .ok (Expr.literal (.string (String.ofList (unescaped (unwrapped l.text)))))
  | callNone, (name, _) => .ok (Expr.call name.text [])
  | callOne, (name, _, e, _) => .ok (Expr.call name.text [e])
  | callMore, (name, _, e, es, _) => .ok (Expr.call name.text (e :: es))
  | argumentTailOne, (_, e, _) => .ok [e]
  | argumentTailMore, (es, _, e, _) => .ok (List.append es [e])
  | identifier, (l, _) => .ok (Expr.var l.text)
  | parens, (_, e, _) => .ok e

mutual
/-- The value of a tree, or the first error in it. --/
def Tree.value {s : Symbol} : Tree s → Except ParseError s.Value
  | .leaf l => .ok l
  | .node r children => do
    let vs ← children.values
    r.build vs

def Forest.values {ss : List Symbol} : Forest ss → Except ParseError (Values ss)
  | .nil => .ok ()
  | .cons tree trees => do
    let v ← tree.value
    let vs ← trees.values
    .ok (v, vs)
end

end Grammar
end TypedImp
