import TypedImp.Diagnostic
import TypedImp.Program.Basic

/-! Why a program breaks the static rules. The last group are nodes that no text is parsed to, in places
    where a tree read from outside may have them. -/

namespace TypedImp

/-- The statements that have a condition. --/
inductive Construct where
  | ifStatement
  | whileLoop
  | forLoop
  deriving DecidableEq, Inhabited, Repr

def Construct.word : Construct → String
  | ifStatement => "if"
  | whileLoop => "while"
  | forLoop => "for"

/-- What a condition of another type is told. --/
def Construct.notBoolMessage (c : Construct) (actual : Ty) : String :=
  "'" ++ c.word ++ "' condition must be bool, got " ++ actual.name

namespace Typing

inductive Error where
  | globalScopeExit
  | redeclaredVariable (name : String)
  | redeclaredFunction (name : String)
  | undeclared (name : String)
  | notAVariable (name : String)
  | notAFunction (name : String)
  | badInitializer (name : String) (declared actual : Ty)
  | badAssignment (name : String) (declared actual : Ty)
  | conditionNotBool (construct : Construct) (actual : Ty)
  | functionNotAtTop (name : String)
  | duplicateParameter (param function : String)
  | returnOutside
  | missingReturnValue (expected : Ty)
  | voidReturnsValue
  | badReturn (expected actual : Ty)
  | noValue
  | badOperand (op : UnaryOp) (actual : Ty)
  | notBoolOperands (op : BinaryOp) (left right : Ty)
  | incompatibleOperands (op : BinaryOp) (left right : Ty)
  | notNumericOperands (op : BinaryOp) (left right : Ty)
  | unknownOperator (op : BinaryOp)
  | wrongArity (name : String) (expected actual : Nat)
  | badArgument (index : Nat) (name : String) (expected actual : Ty)
  | strayStatement (node : Option Node)
  | strayExpression (node : Option Node)
  | misnamed (name : Json)
  | notABlock (node : Option Node)
  deriving BEq, Inhabited, Repr

namespace Error

def inQuotes (s : String) : String := "'" ++ s ++ "'"

/-- What the user is told, unless the node should not be in the program at all. --/
def complaint? : Error → Option String
  | globalScopeExit => some "cannot exit the global scope"
  | redeclaredVariable name => some ("variable " ++ inQuotes name ++ " already declared in this scope")
  | redeclaredFunction name => some ("function " ++ inQuotes name ++ " already declared in this scope")
  | undeclared name => some ("undeclared identifier " ++ inQuotes name)
  | notAVariable name => some (inQuotes name ++ " is a function, not a variable")
  | notAFunction name => some (inQuotes name ++ " is not a function")
  | badInitializer name declared actual =>
    some ("cannot initialize " ++ inQuotes name ++ " of type " ++ declared.name ++
      " with a value of type " ++ actual.name)
  | badAssignment name declared actual =>
    some ("cannot assign a value of type " ++ actual.name ++ " to " ++ inQuotes name ++ " of type " ++
      declared.name)
  | conditionNotBool construct actual => some (construct.notBoolMessage actual)
  | functionNotAtTop name => some ("function " ++ inQuotes name ++ " must be declared at top level")
  | duplicateParameter param function =>
    some ("duplicate parameter " ++ inQuotes param ++ " in function " ++ inQuotes function)
  | returnOutside => some "'return' outside of a function"
  | missingReturnValue expected => some ("missing return value, expected " ++ expected.name)
  | voidReturnsValue => some "a void function cannot return a value"
  | badReturn expected actual =>
    some ("cannot return a value of type " ++ actual.name ++ " from a function returning " ++ expected.name)
  | noValue => some "a void function call has no value"
  | badOperand op actual =>
    some ("unary " ++ inQuotes op.text ++ " expects a numeric operand, got " ++ actual.name)
  | notBoolOperands op left right =>
    some ("operator " ++ inQuotes op.text ++ " expects bool operands, got " ++ left.name ++ " and " ++
      right.name)
  | incompatibleOperands op left right =>
    some ("incompatible operand types for " ++ inQuotes op.text ++ ": " ++ left.name ++ " and " ++
      right.name)
  | notNumericOperands op left right =>
    some ("operator " ++ inQuotes op.text ++ " expects numeric operands, got " ++ left.name ++ " and " ++
      right.name)
  | unknownOperator op => some ("unknown operator " ++ inQuotes op.text)
  | wrongArity name expected actual =>
    some ("function " ++ inQuotes name ++ " expects " ++ toString expected ++ " argument(s), got " ++
      toString actual)
  | badArgument index name expected actual =>
    some ("argument " ++ toString index ++ " of " ++ inQuotes name ++ " must be " ++ expected.name ++
      ", got " ++ actual.name)
  | _ => none

def diagnostic? (e : Error) : Option Diagnostic := e.complaint?.map fun m => ⟨.checking, m, none⟩

def message (e : Error) : String :=
  match e.complaint? with
  | some m => m
  | none =>
    match e with
    | strayStatement node => "analyze: unexpected node type " ++ Node.kindOf node
    | strayExpression node => "analyze_expression: unexpected node type " ++ Node.kindOf node
    | misnamed name => (JsonError.notAKey name).message
    | notABlock node => inQuotes (Node.kindOf node) ++ " object has no attribute 'statements'"
    | _ => ""

end Error
end Typing
end TypedImp
