import TypedImp.Decimal.Numeral
import TypedImp.Grammar.Rule
import TypedImp.Program.Basic
import TypedImp.Text.Digit
import TypedImp.Token.Scanner
import TypedImp.Word

/-! The grammar of programs over tokens. Each relation says which tokens write which part of a program,
    without saying how they are read: `Expression ts e` says that the tokens `ts` and no others write the
    expression `e`. An expression is stratified by the levels of its operators, and a chain of operators
    of one level associates to the left. -/

namespace TypedImp

/-! ### Texts of tokens -/

namespace Token

/-- The value of a row of ASCII digits in base ten. -/
def decimalValue (cs : List Char) : Nat := Text.ofDigits 0 (cs.map fun c => c.toNat - '0'.toNat)

/-- The number that digits before and behind a point write. -/
def pointValue (whole fraction : List Char) : Float :=
  Decimal.scientific false (decimalValue (whole ++ fraction)) (-(fraction.length : Int))

def AreDigits (cs : List Char) : Prop := ∀ c ∈ cs, Text.isAsciiDigit c = true

/-- A word that can be a name: an ASCII identifier that no keyword and no truth value is. -/
def IsName (word : String) : Prop :=
  ∃ c cs, word.toList = c :: cs ∧ Scanner.isIdentStart c = true ∧
    (∀ d ∈ cs, Scanner.isIdentChar d = true) ∧ Scanner.wordKind word = .ident

/-- The text of a token is one that tokens of its kind have. -/
def Fits (t : Token) : Prop :=
  match t.kind with
  | .integer => t.text.toList ≠ [] ∧ AreDigits t.text.toList
  | .float => ∃ whole fraction, t.text.toList = whole ++ '.' :: fraction ∧ whole ≠ [] ∧
      AreDigits whole ∧ AreDigits fraction
  | .char => ∃ c, t.text = String.singleton c ∧ c ≠ '\n' ∧ c ≠ '\x27'
  | .boolean => t.text = "true" ∨ t.text = "false"
  | .string => True
  | .ident => IsName t.text
  | .eof => t.text = ""
  | .invalid => True
  | k => t.text = k.text

end Token

/-! ### Operators -/

/-- The tokens that write the operators of a level. -/
def Grammar.Level.kinds : Grammar.Level → List Token.Kind
  | or => [.or]
  | and => [.and]
  | equality => [.eq, .ne]
  | relational => [.lt, .le, .gt, .ge]
  | additive => [.plus, .minus]
  | multiplicative => [.star, .slash, .percent]

namespace Syntax
open Grammar (Level)

/-! ### Expressions -/

mutual
/-- Expressions whose operators outside of parentheses and behind no sign are of the given levels, the
    loosest level first. -/
inductive Chain : List Level → List Token → Expr → Prop
  | signed {ts : List Token} {e : Expr} : Signed ts e → Chain [] ts e
  | operand {l : Level} {ls : List Level} {ts : List Token} {e : Expr} : Chain ls ts e → Chain (l :: ls) ts e
  | operator {l : Level} {ls : List Level} {ts us : List Token} {op : Token} {left right : Expr} :
      Chain (l :: ls) ts left → op.kind ∈ l.kinds → Chain ls us right →
      Chain (l :: ls) (ts ++ op :: us) (.binary left (BinaryOp.ofText op.text) right)

/-- Signs in front of a primary expression. -/
inductive Signed : List Token → Expr → Prop
  | primary {ts : List Token} {e : Expr} : Primary ts e → Signed ts e
  | sign {op : Token} {ts : List Token} {e : Expr} :
      op.kind = .plus ∨ op.kind = .minus → Signed ts e →
      Signed (op :: ts) (.unary (UnaryOp.ofText op.text) e)

/-- Literals, names, calls and expressions in parentheses. -/
inductive Primary : List Token → Expr → Prop
  | integer {t : Token} : t.kind = .integer → t.text.length ≤ Decimal.maxIntegerDigits →
      (Token.decimalValue t.text.toList : Int) ≤ Word.maximum →
      Primary [t] (.literal (.int (Token.decimalValue t.text.toList)))
  | float {t : Token} {whole fraction : List Char} : t.kind = .float →
      t.text.toList = whole ++ '.' :: fraction → Token.AreDigits whole → Token.AreDigits fraction →
      Primary [t] (.literal (.float (Token.pointValue whole fraction)))
  | boolean {t : Token} : t.kind = .boolean → Primary [t] (.literal (.bool (t.text == "true")))
  | char {t : Token} : t.kind = .char → Primary [t] (.literal (.char t.text))
  | string {t : Token} : t.kind = .string → Primary [t] (.literal (.string t.text))
  | var {t : Token} : t.kind = .ident → Primary [t] (.var t.text)
  | call {name lp rp : Token} {ts : List Token} {args : List Expr} :
      name.kind = .ident → lp.kind = .lparen → Arguments ts args → rp.kind = .rparen →
      Primary (name :: lp :: (ts ++ [rp])) (.call name.text args)
  | parens {lp rp : Token} {ts : List Token} {e : Expr} :
      lp.kind = .lparen → Chain Level.all ts e → rp.kind = .rparen → Primary (lp :: (ts ++ [rp])) e

/-- The arguments of a call, with a comma between any two. -/
inductive Arguments : List Token → List Expr → Prop
  | none : Arguments [] []
  | some {ts us : List Token} {e : Expr} {es : List Expr} :
      Chain Level.all ts e → MoreArguments us es → Arguments (ts ++ us) (e :: es)

/-- Further arguments, each behind a comma. -/
inductive MoreArguments : List Token → List Expr → Prop
  | none : MoreArguments [] []
  | some {comma : Token} {ts us : List Token} {e : Expr} {es : List Expr} :
      comma.kind = .comma → Chain Level.all ts e → MoreArguments us es →
      MoreArguments (comma :: (ts ++ us)) (e :: es)
end

/-- A primary expression needs no operator of any level. -/
theorem Primary.chain {ts : List Token} {e : Expr} (h : Primary ts e) (ls : List Level) : Chain ls ts e := by
  induction ls with
  | nil => exact .signed (.primary h)
  | cons l ls ih => exact .operand ih

/-- Expressions with operators of every level. -/
abbrev Expression : List Token → Expr → Prop := Chain Level.all

/-! ### Declarations and assignments -/

/-- The type that a token names. -/
def Names (t : Token) (ty : Ty) : Prop := t.kind = .ident ∧ t.text = ty.name

/-- The type of a value that a token names. -/
def NamesValue (t : Token) (ty : Ty) : Prop := Names t ty ∧ ty ≠ .void

/-- `var x : type ;` or `var x : type = e ;` -/
inductive VarDecl : List Token → Stmt → Prop
  | plain {word name colon type semi : Token} {ty : Ty} :
      word.kind = .varWord → name.kind = .ident → colon.kind = .colon → NamesValue type ty →
      semi.kind = .semicolon → VarDecl [word, name, colon, type, semi] (.varDecl name.text ty none)
  | init {word name colon type eq semi : Token} {ty : Ty} {ts : List Token} {e : Expr} :
      word.kind = .varWord → name.kind = .ident → colon.kind = .colon → NamesValue type ty →
      eq.kind = .assign → Expression ts e → semi.kind = .semicolon →
      VarDecl (word :: name :: colon :: type :: eq :: (ts ++ [semi])) (.varDecl name.text ty (some e))

/-- `x = e` without a semicolon -/
inductive Assign : List Token → Stmt → Prop
  | mk {name eq : Token} {ts : List Token} {e : Expr} :
      name.kind = .ident → eq.kind = .assign → Expression ts e →
      Assign (name :: eq :: ts) (.assign name.text e)

/-- The first part of a loop's header. -/
inductive ForInit : List Token → Stmt → Prop
  | decl {ts : List Token} {s : Stmt} : VarDecl ts s → ForInit ts s
  | assign {ts : List Token} {semi : Token} {s : Stmt} :
      Assign ts s → semi.kind = .semicolon → ForInit (ts ++ [semi]) s

/-- The last part of a loop's header. -/
inductive ForStep : List Token → Stmt → Prop
  | assign {ts : List Token} {s : Stmt} : Assign ts s → ForStep ts s
  | assignClosed {ts : List Token} {semi : Token} {s : Stmt} :
      Assign ts s → semi.kind = .semicolon → ForStep (ts ++ [semi]) s
  | expr {ts : List Token} {e : Expr} : Expression ts e → ForStep ts (.expr e)
  | exprClosed {ts : List Token} {semi : Token} {e : Expr} :
      Expression ts e → semi.kind = .semicolon → ForStep (ts ++ [semi]) (.expr e)

/-- A parameter with its type. -/
inductive Parameter : List Token → Param → Prop
  | mk {name colon type : Token} {ty : Ty} :
      name.kind = .ident → colon.kind = .colon → NamesValue type ty →
      Parameter [name, colon, type] ⟨name.text, ty⟩

/-- Parameters, at least one, with a comma between any two. -/
inductive Parameters : List Token → List Param → Prop
  | one {ts : List Token} {p : Param} : Parameter ts p → Parameters ts [p]
  | more {ts us : List Token} {comma : Token} {p : Param} {ps : List Param} :
      Parameter ts p → comma.kind = .comma → Parameters us ps → Parameters (ts ++ comma :: us) (p :: ps)

/-- What may stand between the parentheses of a function's header. -/
inductive ParameterList : List Token → List Param → Prop
  | none : ParameterList [] []
  | some {ts : List Token} {ps : List Param} : Parameters ts ps → ParameterList ts ps

/-! ### Statements -/

/-- A keyword and an expression in parentheses. -/
inductive Condition (k : Token.Kind) : List Token → Expr → Prop
  | mk {word lp rp : Token} {ts : List Token} {e : Expr} :
      word.kind = k → lp.kind = .lparen → Expression ts e → rp.kind = .rparen →
      Condition k (word :: lp :: (ts ++ [rp])) e

mutual
inductive Statement : List Token → Stmt → Prop
  | varDecl {ts : List Token} {s : Stmt} : VarDecl ts s → Statement ts s
  | assign {ts : List Token} {semi : Token} {s : Stmt} :
      Assign ts s → semi.kind = .semicolon → Statement (ts ++ [semi]) s
  | print {ts : List Token} {semi : Token} {e : Expr} :
      Condition .printWord ts e → semi.kind = .semicolon → Statement (ts ++ [semi]) (.print e)
  | input {word lp name rp semi : Token} :
      word.kind = .inputWord → lp.kind = .lparen → name.kind = .ident → rp.kind = .rparen →
      semi.kind = .semicolon → Statement [word, lp, name, rp, semi] (.input name.text)
  | ifThen {ts us : List Token} {cond : Expr} {body : List Stmt} :
      Condition .ifWord ts cond → Block us body → Statement (ts ++ us) (.ifThen cond body)
  | ifElse {ts us vs : List Token} {word : Token} {cond : Expr} {yes no : List Stmt} :
      Condition .ifWord ts cond → Block us yes → word.kind = .elseWord → Block vs no →
      Statement (ts ++ (us ++ word :: vs)) (.ifElse cond yes no)
  | whileLoop {ts us : List Token} {cond : Expr} {body : List Stmt} :
      Condition .whileWord ts cond → Block us body → Statement (ts ++ us) (.whileLoop cond body)
  | forLoop {word lp semi rp : Token} {ts us vs ws : List Token} {init step : Stmt} {cond : Expr}
      {body : List Stmt} :
      word.kind = .forWord → lp.kind = .lparen → ForInit ts init → Expression us cond →
      semi.kind = .semicolon → ForStep vs step → rp.kind = .rparen → Block ws body →
      Statement (word :: lp :: (ts ++ (us ++ semi :: (vs ++ rp :: ws)))) (.forLoop init cond step body)
  | function {word name lp rp colon type : Token} {ts us : List Token} {params : List Param} {result : Ty}
      {body : List Stmt} :
      word.kind = .funcWord → name.kind = .ident → lp.kind = .lparen → ParameterList ts params →
      rp.kind = .rparen → colon.kind = .colon → Names type result → Block us body →
      Statement (word :: name :: lp :: (ts ++ rp :: colon :: type :: us))
        (.function name.text params result body)
  | retNone {word semi : Token} :
      word.kind = .returnWord → semi.kind = .semicolon → Statement [word, semi] (.ret none)
  | retSome {word semi : Token} {ts : List Token} {e : Expr} :
      word.kind = .returnWord → Expression ts e → semi.kind = .semicolon →
      Statement (word :: (ts ++ [semi])) (.ret (some e))
  | expr {ts : List Token} {semi : Token} {e : Expr} :
      Expression ts e → semi.kind = .semicolon → Statement (ts ++ [semi]) (.expr e)

/-- Statements in braces. -/
inductive Block : List Token → List Stmt → Prop
  | mk {lb rb : Token} {ts : List Token} {body : List Stmt} :
      lb.kind = .lbrace → Statements ts body → rb.kind = .rbrace → Block (lb :: (ts ++ [rb])) body

/-- Statements one behind the other. -/
inductive Statements : List Token → List Stmt → Prop
  | none : Statements [] []
  | some {ts us : List Token} {s : Stmt} {ss : List Stmt} :
      Statement ts s → Statements us ss → Statements (ts ++ us) (s :: ss)
end

/-- The tokens of a whole text: statements and then the end of input. -/
inductive Derives : List Token → Program → Prop
  | mk {ts : List Token} {last : Token} {p : Program} :
      Statements ts p.body → last.kind = .eof → Derives (ts ++ [last]) p

end Syntax
end TypedImp
