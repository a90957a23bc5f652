import TypedImp.Value.Basic
import TypedImp.Word
import TypedImp.Decimal.Numeral
import TypedImp.Text.Quoted

/-! Reading a value of a given type from a line of input. -/

namespace TypedImp

inductive InputError where
  | unreadable (ty : Ty) (text : String)
  | outOfRange (text : String)
  | noReading (typeName : String)
  deriving DecidableEq, Repr

def InputError.message : InputError → String
  | unreadable ty text =>
    let name := ty.name
    let shown := Text.quoted text
    s!"cannot parse {name} from {shown}"
  | outOfRange text => "int out of range: " ++ Text.quoted text
  | noReading typeName => "cannot read a value of type " ++ typeName

namespace Value

/-- The text without the blanks at its ends. --/
def trimmed (text : String) : String := String.ofList (Text.trim text.toList)

def readInt (text : String) : Except InputError Value :=
  match Decimal.integer (trimmed text) with
  | .error _ => .error (.unreadable .int text)
  | .ok n => if Word.inRange n then .ok (.int n) else .error (.outOfRange text)

def readFloat (text : String) : Except InputError Value :=
  match Decimal.number? (trimmed text) with
  | none => .error (.unreadable .float text)
  | some x => .ok (.float x)

/-- Capitals count as small letters, and blanks around the word do not count. --/
def readBool (text : String) : Except InputError Value :=
  match Decimal.asciiLower (trimmed text).toList with
  | "true" => .ok (.bool true)
  | "false" => .ok (.bool false)
  | _ => .error (.unreadable .bool text)

/-- The first character; an empty line is read as the null character. --/
def readChar (text : String) : Value :=
  .char (String.singleton (text.toList.headD '\x00'))

/-- The value of type `ty` that a line of input holds. --/
def read (ty : Ty) (text : String) : Except InputError Value :=
  match ty with
  | .int => readInt text
  | .float => readFloat text
  | .bool => readBool text
  | .char => .ok (readChar text)
  | .string => .ok (.string text)
  | .void => .error (.noReading ty.name)

/-- Reading by the name of a type; there is no reading for a name that stands for no type. --/
def readNamed (typeName text : String) : Except InputError Value :=
  match Ty.ofName? typeName with
  | none => .error (.noReading typeName)
  | some ty => read ty text

end Value
end TypedImp
