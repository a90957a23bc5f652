import TypedImp.Decimal.Shortest

/-! How the digits of a number are laid out as text: where the point stands, when an exponent is
    written, and what the numbers without digits are called. -/

namespace TypedImp
namespace Decimal

/-- The decisions of a number format. --/
structure Layout where
  /-- Points from here to `lastPoint` are written without an exponent. --/
  firstPoint : Int
  lastPoint : Int
  /-- The least number of digits of an exponent; its sign is always written. --/
  exponentDigits : Nat
  infinity : String
  nan : String

/-- The layout of printed numbers: positional from `0.0001` to below `10 ^ 16`, with a digit on both
    sides of the point; an exponent has two digits at least. --/
def printed : Layout := ⟨-3, 16, 2, "inf", "nan"⟩

/-- The layout of numbers in an interchange file, which names the numbers without digits otherwise. --/
def interchanged : Layout := { printed with infinity := "Infinity", nan := "NaN" }

def digitText (ds : List Nat) : String := String.ofList (ds.map Nat.digitChar)

/-- The exponent with its sign, filled up with zeros. --/
def Layout.exponentText (l : Layout) (e : Int) : String :=
  let ds := toString e.natAbs
  let fill := String.ofList (List.replicate (l.exponentDigits - ds.length) '0')
  (if e < 0 then "e-" else "e+") ++ fill ++ ds

/-- The text of digits without a sign. --/
def Layout.body (l : Layout) (d : Digits) : String :=
  if d.point < l.firstPoint || l.lastPoint < d.point then
    let fraction := digitText (d.digits.drop 1)
    digitText (d.digits.take 1) ++ (if fraction.isEmpty then "" else "." ++ fraction) ++
      l.exponentText (d.point - 1)
  else if d.point ≤ 0 then
    "0." ++ digitText (List.replicate (-d.point).toNat 0 ++ d.digits)
  else
    let n := d.point.toNat
    let whole := d.digits.take n ++ List.replicate (n - d.digits.length) 0
    let fraction := d.digits.drop n
    digitText whole ++ "." ++ (if fraction.isEmpty then "0" else digitText fraction)

/-- The text of a number. --/
def Layout.text (l : Layout) (x : Float) : String :=
  match Binary64.decode x with
  | .nan => l.nan
  | .infinite negative => (if negative then "-" else "") ++ l.infinity
  | .finite negative m q => (if negative then "-" else "") ++ l.body (shortest m q)

end Decimal
end TypedImp
