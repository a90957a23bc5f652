import TypedImp.Binary64
import TypedImp.Decimal.Numeral
import TypedImp.Json.Basic
import TypedImp.Text.Quoted

/-! Interchange values as numbers. A truth value counts as one or zero. Integers are exact; beside a number
    with a fraction an integer is rounded to one, except in comparisons, which are always exact. -/

namespace TypedImp

/-- Why a value does not give a number with a fraction. --/
inductive NumberError where
  | notANumber (v : Json)
  | malformed (text : String)
  | tooLarge
  deriving BEq, Inhabited, Repr

def NumberError.message : NumberError → String
  | notANumber v => "float() argument must be a string or a real number, not '" ++ v.kindName ++ "'"
  | malformed text => "could not convert string to float: " ++ Text.quoted text
  | tooLarge => "int too large to convert to float"

inductive Number where
  | int (n : Int)
  | float (x : Float)
  deriving Repr

namespace Number

def toJson : Number → Json
  | int n => .int n
  | float x => .float x

/-- The number with a fraction that is nearest to an integer, if it is finite. --/
def roundInt (n : Int) : Except NumberError Float :=
  match Binary64.ofInt? n with
  | some x => .ok x
  | none => .error .tooLarge

def toFloat : Number → Except NumberError Float
  | int n => roundInt n
  | float x => .ok x

/-- An operation that is exact on integers and rounds on all other numbers. --/
def combine (exact : Int → Int → Int) (rounded : Float → Float → Float) :
    Number → Number → Except NumberError Number
  | int a, int b => .ok (int (exact a b))
  | a, b => do .ok (float (rounded (← a.toFloat) (← b.toFloat)))

def add : Number → Number → Except NumberError Number := combine (· + ·) (· + ·)

def sub : Number → Number → Except NumberError Number := combine (· - ·) (· - ·)

def mul : Number → Number → Except NumberError Number := combine (· * ·) (· * ·)

def neg : Number → Number
  | int n => int (-n)
  | float x => float (-x)

def abs : Number → Number
  | int n => int n.natAbs
  | float x => float x.abs

/-- The quotient of two numbers that are not negative, rounded down; the divisor is not zero. --/
def floorDiv : Number → Number → Except NumberError Number := combine Int.tdiv Binary64.floorDiv

/-! ### Order -/

/-- How an integer compares with a fraction `n / d`. --/
def compareRatio (i n : Int) (d : Nat) : Ordering := compare (i * d) n

/-- How an integer compares with a number with a fraction; with no number at all it does not. --/
def compareInt (i : Int) (x : Float) : Option Ordering :=
  match Binary64.decode x with
  | .nan => none
  | .infinite negative => some (if negative then .gt else .lt)
  | .finite negative m q =>
    let n : Int := if negative then -m else m
    if 0 ≤ q then some (compareRatio i (n * Nat.pow 2 q.toNat) 1) else some (compareRatio i n (Nat.pow 2 (-q).toNat))

def order : Number → Number → Option Ordering
  | int a, int b => some (compare a b)
  | int a, float y => compareInt a y
  | float x, int b => (compareInt b x).map Ordering.swap
  | float x, float y => if x < y then some .lt else if x == y then some .eq else if y < x then some .gt else none

def same (a b : Number) : Bool := a.order b == some .eq

def isNegative (a : Number) : Bool := a.order (int 0) == some .lt

def isZero (a : Number) : Bool := a.same (int 0)

end Number

namespace Json

def number? : Json → Option Number
  | bool b => some (.int (if b then 1 else 0))
  | int n => some (.int n)
  | float x => some (.float x)
  | _ => none

/-- The number with a fraction that a value gives; a text gives the one that it writes. --/
def toFloat : Json → Except NumberError Float
  | string s =>
    match Decimal.number? s with
    | some x => .ok x
    | none => .error (.malformed s)
  | v =>
    match v.number? with
    | some n => n.toFloat
    | none => .error (.notANumber v)

end Json
end TypedImp
