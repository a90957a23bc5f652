import TypedImp.Grammar.Terminal

/-! The rules of the grammar. Optional parts are spelled out as rules of their own, and a repetition is a
    list that grows to the right.

    So Lark 1.3.1 expands its notation: `[x]` gives one rule with the part and one without, and `x*` gives a
    rule of its own that calls itself from the left, with the empty list spelled out in the rule around it
    (`startNone`, `levelOne`). The rule `root` stands in front of the start symbol; it is reduced at the end of
    the text. -/

namespace TypedImp
namespace Grammar

/-- The levels of binary operators, loosest first. --/
inductive Level where
  | or
  | and
  | equality
  | relational
  | additive
  | multiplicative
  deriving DecidableEq, Inhabited, Repr

def Level.all : List Level := [or, and, equality, relational, additive, multiplicative]

/-- The forms of statements. --/
inductive Form where
  | varDecl
  | assignment
  | print
  | input
  | branch
  | whileLoop
  | forLoop
  | function
  | ret
  | expr
  deriving DecidableEq, Inhabited, Repr

def Form.all : List Form :=
  [varDecl, assignment, print, input, branch, whileLoop, forLoop, function, ret, expr]

/-- What the rules define. A tail is what follows the first operand of a level, and the first argument
    or parameter of a list. --/
inductive Nonterminal where
  | root
  | start
  | statements
  | statement
  | form (f : Form)
  | forInit
  | forStep
  | param
  | paramTail
  | block
  | expr
  | level (l : Level)
  | levelTail (l : Level)
  | unary
  | primary
  | argumentTail
  deriving DecidableEq, Inhabited, Repr

def Nonterminal.all : List Nonterminal :=
  [root, start, statements, statement] ++ Form.all.map form ++
    [forInit, forStep, param, paramTail, block, expr] ++ Level.all.map level ++
    Level.all.map levelTail ++ [unary, primary, argumentTail]

theorem Nonterminal.mem_all (n : Nonterminal) : n ∈ all := by
  cases n <;> first | decide | (rename_i x; cases x <;> decide)

inductive Symbol where
  | terminal (t : Terminal)
  | nonterminal (n : Nonterminal)
  deriving DecidableEq, Inhabited, Repr

/-- The operators of a level. --/
def Level.operator : Level → Terminal
  | or => .or
  | and => .and
  | equality => .equality
  | relational => .relational
  | additive => .additive
  | multiplicative => .multiplicative

/-- The operands of a level. --/
def Level.operand : Level → Nonterminal
  | or => .level .and
  | and => .level .equality
  | equality => .level .relational
  | relational => .level .additive
  | additive => .level .multiplicative
  | multiplicative => .unary

inductive Rule where
  | root
  | startNone
  | startSome
  | statementsOne
  | statementsMore
  | statement (f : Form)
  | varDecl
  | varDeclInit
  | assignment
  | print
  | input
  | ifThen
  | ifElse
  | whileLoop
  | forLoop
  | forInitDecl
  | forInitAssign
  | stepAssign
  | stepAssignClosed
  | stepExpr
  | stepExprClosed
  | functionNone
  | functionOne
  | functionMore
  | paramTailOne
  | paramTailMore
  | param
  | returnNone
  | returnSome
  | exprStatement
  | blockNone
  | blockSome
  | expr
  | levelOne (l : Level)
  | levelMore (l : Level)
  | levelTailOne (l : Level)
  | levelTailMore (l : Level)
  | signed
  | unsigned
  | int
  | float
  | bool
  | char
  | string
  | callNone
  | callOne
  | callMore
  | argumentTailOne
  | argumentTailMore
  | identifier
  | parens
  deriving DecidableEq, Inhabited, Repr

namespace Rule

def all : List Rule :=
  [root, startNone, startSome, statementsOne, statementsMore] ++ Form.all.map statement ++
    [varDecl, varDeclInit, assignment, print, input, ifThen, ifElse, whileLoop, forLoop, forInitDecl,
      forInitAssign, stepAssign, stepAssignClosed, stepExpr, stepExprClosed, functionNone, functionOne,
      functionMore, paramTailOne, paramTailMore, param, returnNone, returnSome, exprStatement, blockNone,
      blockSome, expr] ++
    Level.all.map levelOne ++ Level.all.map levelMore ++ Level.all.map levelTailOne ++
    Level.all.map levelTailMore ++
    [signed, unsigned, int, float, bool, char, string, callNone, callOne, callMore, argumentTailOne,
      argumentTailMore, identifier, parens]

theorem mem_all (r : Rule) : r ∈ all := by
  cases r <;> first | decide | (rename_i x; cases x <;> decide)

/-- What a rule defines. --/
def lhs : Rule → Nonterminal
  | root => .root
  | startNone | startSome => .start
  | statementsOne | statementsMore => .statements
  | statement _ => .statement
  | varDecl | varDeclInit => .form .varDecl
  | assignment => .form .assignment
  | print => .form .print
  | input => .form .input
  | ifThen | ifElse => .form .branch
  | whileLoop => .form .whileLoop
  | forLoop => .form .forLoop
  | forInitDecl | forInitAssign => .forInit
  | stepAssign | stepAssignClosed | stepExpr | stepExprClosed => .forStep
  | functionNone | functionOne | functionMore => .form .function
  | paramTailOne | paramTailMore => .paramTail
  | param => .param
  | returnNone | returnSome => .form .ret
  | exprStatement => .form .expr
  | blockNone | blockSome => .block
  | expr => .expr
  | levelOne l | levelMore l => .level l
  | levelTailOne l | levelTailMore l => .levelTail l
  | signed | unsigned => .unary
  | int | float | bool | char | string | callNone | callOne | callMore | identifier | parens => .primary
  | argumentTailOne | argumentTailMore => .argumentTail

/-- What a rule puts in the place of what it defines. --/
def rhs : Rule → List Symbol
  | root => [.nonterminal .start]
  | startNone => []
  | startSome => [.nonterminal .statements]
  | statementsOne => [.nonterminal .statement]
  | statementsMore => [.nonterminal .statements, .nonterminal .statement]
  | statement f => [.nonterminal (.form f)]
  | varDecl =>
    [.terminal .varWord, .terminal .name, .terminal .colon, .terminal .name, .terminal .semicolon]
  | varDeclInit =>
    [.terminal .varWord, .terminal .name, .terminal .colon, .terminal .name, .terminal .equal,
      .nonterminal .expr, .terminal .semicolon]
  | assignment => [.terminal .name, .terminal .equal, .nonterminal .expr, .terminal .semicolon]
  | print =>
    [.terminal .printWord, .terminal .lparen, .nonterminal .expr, .terminal .rparen, .terminal .semicolon]
  | input =>
    [.terminal .inputWord, .terminal .lparen, .terminal .name, .terminal .rparen, .terminal .semicolon]
  | ifThen =>
    [.terminal .ifWord, .terminal .lparen, .nonterminal .expr, .terminal .rparen, .nonterminal .block]
  | ifElse =>
    [.terminal .ifWord, .terminal .lparen, .nonterminal .expr, .terminal .rparen, .nonterminal .block,
      .terminal .elseWord, .nonterminal .block]
  | whileLoop =>
    [.terminal .whileWord, .terminal .lparen, .nonterminal .expr, .terminal .rparen, .nonterminal .block]
  | forLoop =>
    [.terminal .forWord, .terminal .lparen, .nonterminal .forInit, .nonterminal .expr,
      .terminal .semicolon, .nonterminal .forStep, .terminal .rparen, .nonterminal .block]
  | forInitDecl => [.nonterminal (.form .varDecl)]
  | forInitAssign => [.nonterminal (.form .assignment)]
  | stepAssign => [.terminal .name, .terminal .equal, .nonterminal .expr]
  | stepAssignClosed => [.terminal .name, .terminal .equal, .nonterminal .expr, .terminal .semicolon]
  | stepExpr => [.nonterminal .expr]
  | stepExprClosed => [.nonterminal .expr, .terminal .semicolon]
  | functionNone =>
    [.terminal .funcWord, .terminal .name, .terminal .lparen, .terminal .rparen, .terminal .colon,
      .terminal .name, .nonterminal .block]
  | functionOne =>
    [.terminal .funcWord, .terminal .name, .terminal .lparen, .nonterminal .param, .terminal .rparen,
      .terminal .colon, .terminal .name, .nonterminal .block]
  | functionMore =>
    [.terminal .funcWord, .terminal .name, .terminal .lparen, .nonterminal .param,
      .nonterminal .paramTail, .terminal .rparen, .terminal .colon, .terminal .name, .nonterminal .block]
  | paramTailOne => [.terminal .comma, .nonterminal .param]
  | paramTailMore => [.nonterminal .paramTail, .terminal .comma, .nonterminal .param]
  | param => [.terminal .name, .terminal .colon, .terminal .name]
  | returnNone => [.terminal .returnWord, .terminal .semicolon]
  | returnSome => [.terminal .returnWord, .nonterminal .expr, .terminal .semicolon]
  | exprStatement => [.nonterminal .expr, .terminal .semicolon]
  | blockNone => [.terminal .lbrace, .terminal .rbrace]
  | blockSome => [.terminal .lbrace, .nonterminal .statements, .terminal .rbrace]
  | expr => [.nonterminal (.level .or)]
  | levelOne l => [.nonterminal l.operand]
  | levelMore l => [.nonterminal l.operand, .nonterminal (.levelTail l)]
  | levelTailOne l => [.terminal l.operator, .nonterminal l.operand]
  | levelTailMore l => [.nonterminal (.levelTail l), .terminal l.operator, .nonterminal l.operand]
  | signed => [.terminal .additive, .nonterminal .unary]
  | unsigned => [.nonterminal .primary]
  | int => [.terminal .int]
  | float => [.terminal .float]
  | bool => [.terminal .bool]
  | char => [.terminal .char]
  | string => [.terminal .string]
  | callNone => [.terminal .name, .terminal .lparen, .terminal .rparen]
  | callOne => [.terminal .name, .terminal .lparen, .nonterminal .expr, .terminal .rparen]
  | callMore =>
    [.terminal .name, .terminal .lparen, .nonterminal .expr, .nonterminal .argumentTail, .terminal .rparen]
  | argumentTailOne => [.terminal .comma, .nonterminal .expr]
  | argumentTailMore => [.nonterminal .argumentTail, .terminal .comma, .nonterminal .expr]
  | identifier => [.terminal .name]
  | parens => [.terminal .lparen, .nonterminal .expr, .terminal .rparen]

end Rule

/-! ### Numbers

Each symbol, rule and place in a rule has a number of its own. -/

def Nonterminal.number : Nonterminal → Nat
  | form f => 16 + f.ctorIdx
  | level l => 32 + l.ctorIdx
  | levelTail l => 40 + l.ctorIdx
  | n => n.ctorIdx

def Symbol.number : Symbol → Nat
  | terminal t => 2 * t.ctorIdx
  | nonterminal n => 2 * n.number + 1

def Rule.number : Rule → Nat
  | statement f => 64 + f.ctorIdx
  | levelOne l => 80 + l.ctorIdx
  | levelMore l => 88 + l.ctorIdx
  | levelTailOne l => 96 + l.ctorIdx
  | levelTailMore l => 104 + l.ctorIdx
  | r => r.ctorIdx

theorem Nonterminal.number_injective {a b : Nonterminal} (h : a.number = b.number) : a = b := by
  have key : ∀ a ∈ Nonterminal.all, ∀ b ∈ Nonterminal.all, a.number = b.number → a = b := by decide
  exact key a (Nonterminal.mem_all a) b (Nonterminal.mem_all b) h

theorem Rule.number_injective {a b : Rule} (h : a.number = b.number) : a = b := by
  have key : ∀ a ∈ Rule.all, ∀ b ∈ Rule.all, a.number = b.number → a = b := by decide +kernel
  exact key a (Rule.mem_all a) b (Rule.mem_all b) h

/-- The rules of a nonterminal. --/
def Nonterminal.rules : Nonterminal → List Rule
  | root => [.root]
  | start => [.startNone, .startSome]
  | statements => [.statementsOne, .statementsMore]
  | statement => Form.all.map .statement
  | form .varDecl => [.varDecl, .varDeclInit]
  | form .assignment => [.assignment]
  | form .print => [.print]
  | form .input => [.input]
  | form .branch => [.ifThen, .ifElse]
  | form .whileLoop => [.whileLoop]
  | form .forLoop => [.forLoop]
  | form .function => [.functionNone, .functionOne, .functionMore]
  | form .ret => [.returnNone, .returnSome]
  | form .expr => [.exprStatement]
  | forInit => [.forInitDecl, .forInitAssign]
  | forStep => [.stepAssign, .stepAssignClosed, .stepExpr, .stepExprClosed]
  | param => [.param]
  | paramTail => [.paramTailOne, .paramTailMore]
  | block => [.blockNone, .blockSome]
  | expr => [.expr]
  | level l => [.levelOne l, .levelMore l]
  | levelTail l => [.levelTailOne l, .levelTailMore l]
  | unary => [.signed, .unsigned]
  | primary => [.int, .float, .bool, .char, .string, .callNone, .callOne, .callMore, .identifier, .parens]
  | argumentTail => [.argumentTailOne, .argumentTailMore]

end Grammar
end TypedImp
