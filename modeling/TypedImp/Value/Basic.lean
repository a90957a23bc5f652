import TypedImp.Ty
import TypedImp.Json.Arithmetic
import TypedImp.Json.Printer

/-! The values of running programs. -/

namespace TypedImp

/-- A value carries its kind. An integer that the language computes has 64 bits and a character that it
    makes is one character long; a tree read from outside may hold others, and even literals whose payload
    does not fit their tag at all. --/
inductive Value where
  | int (n : Int)
  | float (x : Float)
  | bool (b : Bool)
  | char (text : String)
  | string (text : String)
  | loose (tag : Ty) (payload : Json)
  deriving BEq, Inhabited, Repr

namespace Value

def ty : Value → Ty
  | int _ => .int
  | float _ => .float
  | bool _ => .bool
  | char _ => .char
  | string _ => .string
  | loose tag _ => tag

/-- What a literal of the value holds. --/
def payload : Value → Json
  | int n => .int n
  | float x => .float x
  | bool b => .bool b
  | char s => .string s
  | string s => .string s
  | loose _ v => v

/-- The value of a literal; it is loose only if its payload does not fit its tag. --/
def ofPayload : Ty → Json → Value
  | .int, .int n => int n
  | .float, .float x => float x
  | .bool, .bool b => bool b
  | .char, .string s => char s
  | .string, .string s => string s
  | tag, v => loose tag v

def truthText (b : Bool) : String := if b then "true" else "false"

/-- The text that printing a value writes. --/
def text : Value → String
  | int n => toString n
  | float x => Decimal.printed.text x
  | bool b => truthText b
  | char s => s
  | string s => s
  | loose .bool v => truthText v.isTrue
  | loose _ v => v.asText

/-- The payload that stands where the value's text should: that of a loose `char` or `string`. --/
def notText? : Value → Option Json
  | loose .char v | loose .string v => some v
  | _ => none

/-- Does an integer stand where the value's text should, with more digits than can be shown? Reading admits none,
    but the sum of two may be one. --/
def isTooLong (v : Value) : Bool :=
  match v.notText? with
  | some (.int n) => Decimal.maxIntegerDigits < (toString n.natAbs).length
  | _ => false

theorem isTooLong_eq_false {v : Value} (h : v.notText? = none) : v.isTooLong = false := by rw [isTooLong, h]

/-- The truth value, if the value is one. --/
def truth? : Value → Option Bool
  | bool b => some b
  | loose .bool v => some v.isTrue
  | _ => none

/-- Equality as programs see it: the kinds agree and so do the contents. Floats compare by value: the
    two zeros are equal, and a NaN differs from itself. --/
def same : Value → Value → Bool
  | int a, int b => a == b
  | float a, float b => a == b
  | bool a, bool b => a == b
  | char a, char b => a == b
  | string a, string b => a == b
  | loose tag v, b => tag = b.ty && v.same b.payload
  | a, loose tag w => a.ty = tag && a.payload.same w
  | _, _ => false

/-- The value where `target` is expected: an integer becomes a `float`, all else stays. An integer
    beyond every finite `float` has no such value. --/
def widen (v : Value) (target : Ty) : Except NumberError Value :=
  match target, v with
  | .float, int n => float <$> Number.roundInt n
  | .float, loose .int v => float <$> v.toFloat
  | _, v => .ok v

theorem widen_of_ne_float (v : Value) {target : Ty} (h : target ≠ .float) : v.widen target = .ok v := by
  cases target <;> simp_all [widen]

end Value
end TypedImp
