import TypedImp.Parser.Basic
import TypedImp.Program.Basic
import TypedImp.Word

/-! Expressions: six levels of binary operators, all associating to the left, then the signs, then
    literals, names, calls and parentheses. -/

namespace TypedImp
namespace Parser

/-- The operators of each level, loosest first. --/
def levels : List (List Token.Kind) :=
  [[.or], [.and], [.eq, .ne], [.lt, .le, .gt, .ge], [.plus, .minus], [.star, .slash, .percent]]

/-- Operators of one level and operands behind the expression `e`, at most as many as the first
    argument says. --/
def chain (operators : List Token.Kind) (operand : Parser Expr) : Nat → Expr → Parser Expr
  | 0, _ => throw .outOfSteps
  | n + 1, e => do
    if ← isNext (.oneOf operators) then
      let op ← expect (.oneOf operators)
      let right ← operand
      chain operators operand n (.binary e (BinaryOp.ofText op.text) right)
    else
      return e

/-- Binary operators of the given levels over operands. --/
def binary (operand : Parser Expr) : List (List Token.Kind) → Parser Expr
  | [] => operand
  | operators :: tighter => do
    let left ← binary operand tighter
    chain operators (binary operand tighter) (← stepBound) left

def signs : Expected := .oneOf [.minus, .plus]

/-- Signs in front of a primary expression, at most as many as the last argument says. --/
def signed (primary : Parser Expr) : Nat → Parser Expr
  | 0 => throw .outOfSteps
  | n + 1 => do
    if ← isNext signs then
      let op ← expect signs
      return .unary (UnaryOp.ofText op.text) (← signed primary n)
    else
      primary

/-! ### Literals -/

def integerLiteral (t : Token) : Except ParseError Value :=
  match Decimal.integer t.text with
  | .error .malformed => .error (.malformedInteger t.text)
  | .error (.tooLong digits) => .error (.integerTooLong digits)
  | .ok n => if Word.maximum < n then .error (.integerOutOfRange t.text t.position) else .ok (.int n)

def floatLiteral (t : Token) : Except ParseError Value :=
  match Decimal.number? t.text with
  | none => .error (.malformedNumber t.text)
  | some x => .ok (.float x)

/-- The value that a token of a literal kind stands for. --/
def literal? (t : Token) : Option (Except ParseError Value) :=
  match t.kind with
  | .integer => some (integerLiteral t)
  | .float => some (floatLiteral t)
  | .boolean => some (.ok (.bool (t.text == "true")))
  | .char => some (.ok (.char t.text))
  | .string => some (.ok (.string t.text))
  | _ => none

/-! ### Primary expressions -/

/-- Further arguments, each behind a comma. --/
def moreArguments (argument : Parser Expr) : Nat → Parser (List Expr)
  | 0 => throw .outOfSteps
  | n + 1 => do
    if ← nextIs .comma then
      discard (expectKind .comma)
      let e ← argument
      return e :: (← moreArguments argument n)
    else
      return []

/-- The arguments of a call, in parentheses. --/
def arguments (argument : Parser Expr) : Parser (List Expr) := do
  discard (expectKind .lparen)
  let args ←
    if ← nextIs .rparen then pure []
    else do
      let e ← argument
      pure (e :: (← moreArguments argument (← stepBound)))
  discard (expectKind .rparen)
  return args

/-- A literal, a name, a call, or an expression in parentheses. --/
def primary (inner : Parser Expr) : Parser Expr := do
  let t ← peek 0
  match literal? t with
  | some (.ok v) =>
    step
    return .literal v
  | some (.error e) =>
    step
    throw e
  | none =>
    match t.kind with
    | .ident =>
      step
      if ← nextIs .lparen then return .call t.text (← arguments inner)
      else return .var t.text
    | .lparen =>
      step
      let e ← inner
      discard (expectKind .rparen)
      return e
    | _ => throw (.expectedExpression t.found t.position)

/-- An expression nested at most as deep as the argument says. --/
def nested : Nat → Parser Expr
  | 0 => throw .outOfSteps
  | depth + 1 => do binary (signed (primary (nested depth)) (← stepBound)) levels

def expression : Parser Expr := do nested (← stepBound)

/-! ### The levels one by one -/

def primaryExpression : Parser Expr := primary expression

def unaryExpression : Parser Expr := do signed primaryExpression (← stepBound)

/-- Binary operators from the level of the given number on; zero is the loosest. --/
def expressionFrom (level : Nat) : Parser Expr := binary unaryExpression (levels.drop level)

def callArguments : Parser (List Expr) := arguments expression

end Parser
end TypedImp
