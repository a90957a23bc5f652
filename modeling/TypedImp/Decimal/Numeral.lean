import TypedImp.Binary64
import TypedImp.Text.Blank
import TypedImp.Text.Digit

/-! Reading numerals: digits of any script, single underscores between digits, blanks around the
    numeral, a sign in front. Integers have at most 4300 digits. -/

namespace TypedImp
namespace Decimal

/-- The blanks around a numeral; the four information separators are not among them. --/
def isNumeralBlank (c : Char) : Bool :=
  Text.isBlank c && !(28 ≤ c.toNat && c.toNat ≤ 31)

/-- An integer numeral is no longer than this. --/
def maxIntegerDigits : Nat := 4300

inductive IntegerError where
  | malformed
  | tooLong (digits : Nat)
  deriving DecidableEq, Repr

/-- The message for an integer numeral of too many digits. --/
def tooLongMessage (digits : Nat) : String :=
  s!"Exceeds the limit (4300 digits) for integer string conversion: value has {digits} digits; " ++
    "use sys.set_int_max_str_digits() to increase the limit"

/-- The message for an integer that cannot be shown, for the same reason. --/
def tooLongToShowMessage : String :=
  "Exceeds the limit (4300 digits) for integer string conversion; " ++
    "use sys.set_int_max_str_digits() to increase the limit"

def startsWithDigit : List Char → Bool
  | [] => false
  | c :: _ => (Text.digit? c).isSome

/-- The digits up to the first other character, and what follows them. An underscore is skipped after
    a digit and before one; elsewhere it is an error. --/
def digitRowFrom (afterDigit : Bool) : List Char → Option (List Nat × List Char)
  | [] => some ([], [])
  | c :: cs =>
    match Text.digit? c with
    | some d => (digitRowFrom true cs).map fun r => (d :: r.1, r.2)
    | none =>
      if c ≠ '_' then some ([], c :: cs)
      else if afterDigit && startsWithDigit cs then digitRowFrom false cs
      else none

def digitRow (cs : List Char) : Option (List Nat × List Char) := digitRowFrom false cs

/-- The sign in front of a numeral: is it a minus, and what follows it. --/
def signOf : List Char → Bool × List Char
  | '+' :: cs => (false, cs)
  | '-' :: cs => (true, cs)
  | cs => (false, cs)

/-- The integer that a numeral in base ten writes. Its length is judged before what follows it. --/
def integer (s : String) : Except IntegerError Int :=
  let (negative, body) := signOf (Text.trimBy isNumeralBlank s.toList)
  match digitRow body with
  | none => .error .malformed
  | some (ds, rest) =>
    if maxIntegerDigits < ds.length then .error (.tooLong ds.length)
    else if ds.isEmpty || !rest.isEmpty then .error .malformed
    else
      let n : Int := Text.ofDigits 0 ds
      .ok (if negative then -n else n)

/-! ### Numbers with a fraction -/

/-- `± n · 10 ^ e` as a binary number; an exponent that leaves no doubt is not computed with. --/
def scientific (negative : Bool) (n : Nat) (e : Int) : Float :=
  let magnitude := (n.log2 : Int) * 30103 / 100000 + e
  if n = 0 || magnitude < -400 then Binary64.ofRatio negative 0 1
  else if 400 < magnitude then Binary64.infinity negative
  else if 0 ≤ e then Binary64.ofRatio negative (n * Nat.pow 10 e.toNat) 1
  else Binary64.ofRatio negative n (Nat.pow 10 (-e).toNat)

def asciiLower (cs : List Char) : String := String.ofList (cs.map Char.toLower)

/-- The exponent after a significand: a mark, a sign and digits up to the end, or nothing at all. --/
def exponentOf? : List Char → Option Int
  | [] => some 0
  | c :: cs =>
    if c = 'e' || c = 'E' then
      let (negative, body) := signOf cs
      match digitRow body with
      | some (d :: ds, []) =>
        let n : Int := Text.ofDigits 0 (d :: ds)
        some (if negative then -n else n)
      | _ => none
    else none

/-- The significand's digits before and after the point, and what follows them. --/
def significand? (cs : List Char) : Option (List Nat × List Nat × List Char) := do
  let (whole, rest) ← digitRow cs
  match rest with
  | '.' :: rest =>
    let (fraction, rest) ← digitRow rest
    if whole.isEmpty && fraction.isEmpty then none else some (whole, fraction, rest)
  | rest => if whole.isEmpty then none else some (whole, [], rest)

/-- The number that a numeral writes: decimal digits with a point and an exponent, or the name of
    infinity or of no number. --/
def number? (s : String) : Option Float :=
  let (negative, body) := signOf (Text.trimBy isNumeralBlank s.toList)
  match asciiLower body with
  | "inf" | "infinity" => some (Binary64.infinity negative)
  | "nan" => some Binary64.nan
  | _ => do
    let (whole, fraction, rest) ← significand? body
    let e ← exponentOf? rest
    some (scientific negative (Text.ofDigits 0 (whole ++ fraction)) (e - fraction.length))

end Decimal
end TypedImp
