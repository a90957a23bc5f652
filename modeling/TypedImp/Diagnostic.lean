import TypedImp.Token.Basic

/-! What a user is told about a program that is wrong: at which stage, what, and where in the text. -/

namespace TypedImp

inductive Stage where
  | lexing
  | parsing
  | checking
  | running
  deriving DecidableEq, Inhabited, Repr

/-- What an error of a stage is called. --/
def Stage.errorName : Stage → String
  | lexing => "LexError"
  | parsing => "ParseError"
  | checking => "SemanticError"
  | running => "RuntimeError"

structure Diagnostic where
  stage : Stage
  message : String
  place : Option Position
  deriving DecidableEq, Inhabited, Repr

/-- The message with its place, if it has one. --/
def Diagnostic.text (d : Diagnostic) : String :=
  match d.place with
  | none => d.message
  | some p =>
    let message := d.message
    let line := p.line
    let column := p.column
    s!"{message} at line {line}, column {column}"

/-- One line for the user: the name of the error and its text. --/
def Diagnostic.report (d : Diagnostic) : String := d.stage.errorName ++ ": " ++ d.text

end TypedImp
