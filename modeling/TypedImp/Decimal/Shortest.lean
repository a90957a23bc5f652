import TypedImp.Binary64

/-! The shortest decimal text of a binary number: the fewest significant digits that read back as the
    number, and of those the nearest to it. -/

namespace TypedImp
namespace Decimal

/-- Significant digits `digits` with the decimal point before the first of them, times ten to `point`. --/
structure Digits where
  digits : List Nat
  point : Int
  deriving DecidableEq, Repr

/-- The decimal digits of a number, most significant first; none for zero. --/
def digitsOf : Nat → List Nat
  | 0 => []
  | n + 1 => digitsOf ((n + 1) / 10) ++ [(n + 1) % 10]
termination_by n => n
decreasing_by omega

/-- `a / b < 10 ^ e`. --/
def belowPower (a b : Nat) (e : Int) : Bool :=
  if 0 ≤ e then a < b * Nat.pow 10 e.toNat else a * Nat.pow 10 (-e).toNat < b

/-- The least `e` with `a / b < 10 ^ e`, found near the estimate by binary logarithms. --/
def pointOf (a b : Nat) : Int :=
  let e := (((a.log2 : Int) - b.log2 - 1) * 30103).fdiv 100000
  if belowPower a b e then e
  else if belowPower a b (e + 1) then e + 1
  else if belowPower a b (e + 2) then e + 2
  else e + 3

/-- The numbers that round to `m · 2 ^ q`: from `low / unit` to `high / unit`, the ends included if
    `closed`; `mid / unit` is the number itself. --/
structure Rounding where
  low : Nat
  mid : Nat
  high : Nat
  unit : Nat
  closed : Bool

/-- The gap below a power of two is half the gap above it, except at the least exponent. --/
def roundingOf (m : Nat) (q : Int) : Rounding :=
  let below := if m = Nat.pow 2 52 && Binary64.minExponent < q then 1 else 2
  let s := q - 2
  let up := if 0 ≤ s then Nat.pow 2 s.toNat else 1
  let unit := if 0 ≤ s then 1 else Nat.pow 2 (-s).toNat
  ⟨(4 * m - below) * up, 4 * m * up, (4 * m + 2) * up, unit, m % 2 = 0⟩

/-- Does `c · 10 ^ e` round to the number? --/
def Rounding.holds (r : Rounding) (c : Nat) (e : Int) : Bool :=
  let a := if 0 ≤ e then c * Nat.pow 10 e.toNat * r.unit else c * r.unit
  let scale := if 0 ≤ e then 1 else Nat.pow 10 (-e).toNat
  if r.closed then r.low * scale ≤ a && a ≤ r.high * scale else r.low * scale < a && a < r.high * scale

/-- The multiple of `10 ^ e` that rounds to the number and is nearest to it, of two equally near ones
    the even one. Only the two multiples beside the number need a look. --/
def Rounding.onGrid? (r : Rounding) (e : Int) : Option Nat :=
  let a := if 0 ≤ e then r.mid else r.mid * Nat.pow 10 (-e).toNat
  let b := if 0 ≤ e then r.unit * Nat.pow 10 e.toNat else r.unit
  let c := a / b
  let rest := a % b
  match r.holds c e, r.holds (c + 1) e with
  | true, true =>
    some (if 2 * rest < b then c else if b < 2 * rest then c + 1 else c + c % 2)
  | true, false => some c
  | false, true => some (c + 1)
  | false, false => none

/-- The first grid with a hit, from coarse to fine. --/
def Rounding.firstGrid (r : Rounding) (point : Int) : List Nat → Nat × Int
  | [] => (0, 0)
  | n :: ns =>
    match r.onGrid? (point - n) with
    | some c => (c, point - n)
    | none => firstGrid r point ns

/-- The shortest digits of `m · 2 ^ q`; seventeen always suffice. --/
def shortest (m : Nat) (q : Int) : Digits :=
  if m = 0 then ⟨[0], 1⟩
  else
    let r := roundingOf m q
    let (c, e) := r.firstGrid (pointOf r.mid r.unit) ((List.range 17).map (· + 1))
    let ds := digitsOf c
    ⟨(ds.reverse.dropWhile (· = 0)).reverse, e + ds.length⟩

end Decimal
end TypedImp
