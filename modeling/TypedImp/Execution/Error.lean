import TypedImp.Diagnostic
import TypedImp.Store
import TypedImp.Typing.Error
import TypedImp.Value.Input
import TypedImp.Value.Operation

/-! Why a running program stops early. -/

namespace TypedImp
namespace Execution

/-- The last group are the end of the input, a nesting that the machine does not grant, and what only nodes that
    no text is parsed to lead to. --/
inductive Error where
  | operation (e : OperationError)
  | store (e : StoreError)
  | notBoolOperand (op : BinaryOp) (actual : Ty)
  | conditionNotBool (construct : Construct) (actual : Ty)
  | invalidInput (name : String) (e : InputError)
  | badInitializer (name : String) (declared actual : Ty)
  | badArgument (index : Nat) (name : String) (expected actual : Ty)
  | badReturn (name : String) (expected actual : Ty)
  | undefinedFunction (name : String)
  | wrongArity (name : String) (expected actual : Nat)
  | depthExceeded (limit : Int) (name : String)
  | stackExhausted
  | voidReturned (name : String)
  | missingReturn (name : String) (expected : Ty)
  | noResult (name : String)
  | functionNotAtTop (name : String)
  | endOfInput
  | nestingRefused
  | tooLongToShow
  | strayStatement (node : Option Node)
  | strayExpression (node : Option Node)
  | misnamed (name : Json)
  | notABlock (node : Option Node)
  | notACall (kind part : String)
  deriving BEq, Inhabited, Repr

namespace Error

def inQuotes (s : String) : String := "'" ++ s ++ "'"

def complaint? : Error → Option String
  | operation e => e.complaint?
  | store e => e.complaint?
  | notBoolOperand op actual =>
    some ("operator " ++ op.text ++ " expects bool operands, got " ++ actual.name)
  | conditionNotBool construct actual => some (construct.notBoolMessage actual)
  | invalidInput name e => some ("invalid input for " ++ inQuotes name ++ ": " ++ e.message)
  | badInitializer name declared actual =>
    some ("initializer of " ++ inQuotes name ++ " must be " ++ declared.name ++ ", got " ++ actual.name)
  | badArgument index name expected actual =>
    some ("argument " ++ toString index ++ " of " ++ inQuotes name ++ " must be " ++ expected.name ++
      ", got " ++ actual.name)
  | badReturn name expected actual =>
    some ("return value of " ++ inQuotes name ++ " must be " ++ expected.name ++ ", got " ++ actual.name)
  | undefinedFunction name => some ("undefined function " ++ inQuotes name)
  | wrongArity name expected actual =>
    some ("function " ++ inQuotes name ++ " expects " ++ toString expected ++ " argument(s), got " ++
      toString actual)
  | depthExceeded limit name =>
    some ("maximum call depth " ++ toString limit ++ " exceeded in " ++ inQuotes name)
  | stackExhausted => some "call stack exhausted"
  | voidReturned name => some ("void function " ++ inQuotes name ++ " returned a value")
  | missingReturn name expected =>
    some ("function " ++ inQuotes name ++ " must return a value of type " ++ expected.name)
  | noResult name => some ("function " ++ inQuotes name ++ " does not return a value")
  | functionNotAtTop name => some ("function " ++ inQuotes name ++ " must be declared at top level")
  | _ => none

def diagnostic? (e : Error) : Option Diagnostic := e.complaint?.map fun m => ⟨.running, m, none⟩

def message (e : Error) : String :=
  match e.complaint? with
  | some m => m
  | none =>
    match e with
    | operation e => e.message
    | store e => e.message
    | endOfInput => "EOF when reading a line"
    | nestingRefused => "the nesting is out of the machine's range"
    | tooLongToShow => Decimal.tooLongToShowMessage
    | strayStatement node => "execute: unexpected node type " ++ Node.kindOf node
    | strayExpression node => "evaluate: unexpected node type " ++ Node.kindOf node
    | misnamed name => (JsonError.notAKey name).message
    | notABlock node => inQuotes (Node.kindOf node) ++ " object has no attribute 'statements'"
    | notACall kind part => inQuotes kind ++ " object has no attribute " ++ inQuotes part
    | _ => ""

end Error
end Execution
end TypedImp
