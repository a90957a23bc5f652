/-! The types of the language. Every value has one of five; `void` is the result of a function that
    returns nothing. The one conversion that happens unasked takes an `int` where a `float` is expected. -/

namespace TypedImp

inductive Ty where
  | int
  | float
  | bool
  | char
  | string
  | void
  deriving DecidableEq, Inhabited, Repr

namespace Ty

def name : Ty → String
  | int => "int"
  | float => "float"
  | bool => "bool"
  | char => "char"
  | string => "string"
  | void => "void"

def all : List Ty := [int, float, bool, char, string, void]

/-- The type that a name stands for. --/
def ofName? (name : String) : Option Ty := all.find? fun t => t.name == name

/-- The type that a name stands for where only the type of a value may stand. --/
def ofValueName? (name : String) : Option Ty := (ofName? name).filter (· ≠ void)

def isNumeric (t : Ty) : Bool := t = int || t = float

/-- May a value of type `actual` be stored where `expected` is declared? --/
def accepts (expected actual : Ty) : Bool :=
  expected = actual || (expected = float && actual = int)

theorem ofName?_name (t : Ty) : ofName? t.name = some t := by
  cases t <;> decide

end Ty

/-! ### Names as they are written -/

namespace TypeName

/-- Compatibility of names; one that stands for no type is compatible with itself alone. --/
def accepts (expected actual : String) : Bool :=
  match Ty.ofName? expected, Ty.ofName? actual with
  | some e, some a => e.accepts a
  | _, _ => expected == actual

def isNumeric (name : String) : Bool := (Ty.ofName? name).any Ty.isNumeric

end TypeName
end TypedImp
