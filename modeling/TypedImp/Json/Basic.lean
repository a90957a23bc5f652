import TypedImp.Assoc

/-! Interchange values: what a JSON text stands for. The members of an object keep their order, and
    integers are told apart from numbers with a fraction. -/

namespace TypedImp

inductive Json where
  | null
  | bool (b : Bool)
  | int (n : Int)
  | float (x : Float)
  | string (s : String)
  | array (items : List Json)
  | object (members : List (String × Json))
  deriving BEq, Inhabited, Repr

namespace Json

/-- What messages call the kind of a value. --/
def kindName : Json → String
  | null => "NoneType"
  | bool _ => "bool"
  | int _ => "int"
  | float _ => "float"
  | string _ => "str"
  | array _ => "list"
  | object _ => "dict"

/-- Can things be looked up by the value? Not by a list or an object. --/
def isKey : Json → Bool
  | array _ | object _ => false
  | _ => true

/-- The value of a member that is there and is not null. --/
def member? (members : Assoc Json) (key : String) : Option Json :=
  match Assoc.get? members key with
  | none | some null => none
  | some v => some v

/-- Does a value count as true where a truth value is asked for? Nothing, zero and what is empty do not. --/
def isTrue : Json → Bool
  | null => false
  | bool b => b
  | int n => n != 0
  | float x => x != 0
  | string s => !s.isEmpty
  | array items => !items.isEmpty
  | object members => !members.isEmpty

end Json
end TypedImp
