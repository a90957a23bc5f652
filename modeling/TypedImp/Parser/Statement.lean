import TypedImp.Parser.Expression
import TypedImp.Token.Scanner

/-! Statements and whole programs. -/

namespace TypedImp
namespace Parser

/-! ### Types and parameters -/

/-- The name of a type that `read` knows. --/
def typeName (read : String → Option Ty) : Parser Ty := do
  let t ← expectKind .ident
  match read t.text with
  | some ty => return ty
  | none => throw (.unknownType t.text t.position)

def valueType : Parser Ty := typeName Ty.ofValueName?

/-- Only the result of a function may be `void`. --/
def resultType : Parser Ty := typeName Ty.ofName?

/-- Parameters with commas between them, at most as many as the argument says. --/
def parametersUpTo : Nat → Parser (List Param)
  | 0 => throw .outOfSteps
  | n + 1 => do
    let name ← expectKind .ident
    discard (expectKind .colon)
    let ty ← valueType
    let p : Param := ⟨name.text, ty⟩
    if ← nextIs .comma then
      discard (expectKind .comma)
      return p :: (← parametersUpTo n)
    else
      return [p]

def parameters : Parser (List Param) := do parametersUpTo (← stepBound)

/-! ### Statements without a body -/

def varDecl : Parser Stmt := do
  discard (expectKind .varWord)
  let name ← expectKind .ident
  discard (expectKind .colon)
  let ty ← valueType
  let init ←
    if ← nextIs .assign then do
      discard (expectKind .assign)
      let e ← expression
      pure (some e)
    else pure none
  discard (expectKind .semicolon)
  return .varDecl name.text ty init

/-- The semicolon of an assignment may be left out only where it is optional. --/
def assignment (semicolonRequired : Bool) : Parser Stmt := do
  let name ← expectKind .ident
  discard (expectKind .assign)
  let value ← expression
  if semicolonRequired then discard (expectKind .semicolon) else skipIf .semicolon
  return .assign name.text value

def printStatement : Parser Stmt := do
  discard (expectKind .printWord)
  discard (expectKind .lparen)
  let e ← expression
  discard (expectKind .rparen)
  discard (expectKind .semicolon)
  return .print e

def inputStatement : Parser Stmt := do
  discard (expectKind .inputWord)
  discard (expectKind .lparen)
  let name ← expectKind .ident
  discard (expectKind .rparen)
  discard (expectKind .semicolon)
  return .input name.text

def returnStatement : Parser Stmt := do
  discard (expectKind .returnWord)
  if ← nextIs .semicolon then
    discard (expectKind .semicolon)
    return .ret none
  else
    let value ← expression
    discard (expectKind .semicolon)
    return .ret (some value)

def expressionStatement : Parser Stmt := do
  let e ← expression
  discard (expectKind .semicolon)
  return .expr e

/-! ### Statements with a body -/

/-- An expression in parentheses, behind a keyword. --/
def condition (word : Token.Kind) : Parser Expr := do
  discard (expectKind word)
  discard (expectKind .lparen)
  let e ← expression
  discard (expectKind .rparen)
  return e

def ifStatement (body : Parser (List Stmt)) : Parser Stmt := do
  let cond ← condition .ifWord
  let yes ← body
  if ← nextIs .elseWord then
    discard (expectKind .elseWord)
    return .ifElse cond yes (← body)
  else
    return .ifThen cond yes

def whileStatement (body : Parser (List Stmt)) : Parser Stmt := do
  let cond ← condition .whileWord
  return .whileLoop cond (← body)

/-- A loop begins with a declaration or an assignment. --/
def forInitializer : Parser Stmt := do
  if ← nextIs .varWord then varDecl
  else if ← nextIsAssignment then assignment true
  else
    let t ← peek 0
    throw (.forInitializer t.position)

/-- The step of a loop is an assignment or an expression; its semicolon is optional. --/
def forStep : Parser Stmt := do
  if ← nextIsAssignment then assignment false
  else
    let e ← expression
    skipIf .semicolon
    return .expr e

def forStatement (body : Parser (List Stmt)) : Parser Stmt := do
  discard (expectKind .forWord)
  discard (expectKind .lparen)
  let init ← forInitializer
  let cond ← expression
  discard (expectKind .semicolon)
  let next ← forStep
  discard (expectKind .rparen)
  return .forLoop init cond next (← body)

def recordFunction (name : String) (arity : Nat) : Parser Unit :=
  modify fun c => { c with functions := (name, arity) :: c.functions }

def functionDeclaration (body : Parser (List Stmt)) : Parser Stmt := do
  discard (expectKind .funcWord)
  let name ← expectKind .ident
  discard (expectKind .lparen)
  let params ← if ← nextIs .rparen then pure [] else parameters
  discard (expectKind .rparen)
  discard (expectKind .colon)
  let result ← resultType
  let stmts ← body
  recordFunction name.text params.length
  return .function name.text params result stmts

/-! ### Blocks and programs -/

/-- Statements up to the end of a block. --/
def blockRest (statement : Parser Stmt) : Nat → Parser (List Stmt)
  | 0 => throw .outOfSteps
  | n + 1 => do
    if ← nextIs .rbrace then return []
    else if ← nextIs .eof then
      let t ← peek 0
      throw (.unterminatedBlock t.position)
    else
      let s ← statement
      return s :: (← blockRest statement n)

def blockOf (statement : Parser Stmt) : Parser (List Stmt) := do
  discard (expectKind .lbrace)
  let body ← blockRest statement (← stepBound)
  discard (expectKind .rbrace)
  return body

/-- A statement whose blocks are nested at most as deep as the argument says. The first token decides
    which statement it is, for an identifier together with the second one. --/
def statementUpTo : Nat → Parser Stmt
  | 0 => throw .outOfSteps
  | depth + 1 => do
    let body := blockOf (statementUpTo depth)
    let t ← peek 0
    match t.kind with
    | .varWord => varDecl
    | .printWord => printStatement
    | .inputWord => inputStatement
    | .ifWord => ifStatement body
    | .whileWord => whileStatement body
    | .forWord => forStatement body
    | .funcWord => functionDeclaration body
    | .returnWord => returnStatement
    | _ => if ← nextIsAssignment then assignment true else expressionStatement

def statement : Parser Stmt := do statementUpTo (← stepBound)

def block : Parser (List Stmt) := blockOf statement

/-- Statements up to the end of input. --/
def statements : Nat → Parser (List Stmt)
  | 0 => throw .outOfSteps
  | n + 1 => do
    if ← nextIs .eof then return []
    else
      let s ← statement
      return s :: (← statements n)

def program : Parser Program := do
  let body ← statements (← stepBound)
  return ⟨body⟩

end Parser

/-- What a parser answers, and how far it came. --/
structure Parsed (α : Type) where
  answer : Except ParseError α
  cursor : Cursor

def Parser.run {α : Type} (p : Parser α) (ts : TokenStream) (c : Cursor) : Parsed α :=
  match ReaderT.run p ts c with
  | .ok a c => ⟨.ok a, c⟩
  | .error e c => ⟨.error e, c⟩

namespace Program

def parseTokens (ts : List Token) : Parsed Program :=
  Parser.program.run (TokenStream.ofList ts) Parser.start

/-- The program that a text holds. --/
def parse (text : String) : Except ParseError Program := (parseTokens (tokenize text)).answer

end Program
end TypedImp
