/-! Binary floating-point numbers of 64 bits as integers: a finite one is `m · 2 ^ q`. Decoding reads
    the bits, and a ratio of natural numbers rounds to the nearest number, a tie to the even one. -/

namespace TypedImp
namespace Binary64

/-- What the bits of a number mean. The sign is kept apart, so that zero has two. --/
inductive Parts where
  | finite (negative : Bool) (m : Nat) (q : Int)
  | infinite (negative : Bool)
  | nan
  deriving DecidableEq, Repr

/-- The least exponent; numbers below `2 ^ 52` times its power have fewer than 53 bits. --/
def minExponent : Int := -1074

/-- The bits of infinity, one above those of the largest finite number. --/
def infinityBits : Nat := 0x7ff * Nat.pow 2 52

def signBit : Nat := Nat.pow 2 63

/-- Splits the bits into sign, exponent and significand. --/
def decode (x : Float) : Parts :=
  let bits := x.toBits.toNat
  let negative := signBit ≤ bits
  let body := bits % signBit
  let biased : Nat := body / Nat.pow 2 52
  let fraction : Nat := body % Nat.pow 2 52
  if biased = 0x7ff then if fraction = 0 then .infinite negative else .nan
  else if biased = 0 then .finite negative fraction minExponent
  else .finite negative (Nat.pow 2 52 + fraction) ((biased : Int) + minExponent - 1)

/-! ### Rounding -/

/-- `n / d` rounded to the nearest integer, a tie to the even one. --/
def roundDiv (n d : Nat) : Nat :=
  let k := n / d
  let r := n % d
  if 2 * r < d then k
  else if d < 2 * r then k + 1
  else k + k % 2

/-- `n / (d · 2 ^ q)` as a pair of natural numbers. --/
def scaled (n d : Nat) (q : Int) : Nat × Nat :=
  if 0 ≤ q then (n, d * Nat.pow 2 q.toNat) else (n * Nat.pow 2 (-q).toNat, d)

/-- The exponent at which `n / d` has 53 bits, but never below the least one. --/
def exponentFor (n d : Nat) : Int :=
  let q := max minExponent ((n.log2 : Int) - d.log2 - 53)
  let (a, b) := scaled n d q
  if b * Nat.pow 2 53 ≤ a then q + 1 else q

/-- The bits of the positive number nearest to `n / d`; what exceeds every finite number is infinite. --/
def nearestBits (n d : Nat) : Nat :=
  if n = 0 then 0
  else
    let q := exponentFor n d
    let (a, b) := scaled n d q
    min infinityBits ((q - minExponent).toNat * Nat.pow 2 52 + roundDiv a b)

/-- The number nearest to `± n / d`. --/
def ofRatio (negative : Bool) (n d : Nat) : Float :=
  Float.ofBits (UInt64.ofNat ((if negative then signBit else 0) + nearestBits n d))

/-- The number nearest to an integer, unless that is infinite. --/
def ofInt? (i : Int) : Option Float :=
  if nearestBits i.natAbs 1 = infinityBits then none else some (ofRatio (i < 0) i.natAbs 1)

def infinity (negative : Bool) : Float :=
  Float.ofBits (UInt64.ofNat ((if negative then signBit else 0) + infinityBits))

def nan : Float := Float.ofBits (UInt64.ofNat (infinityBits + Nat.pow 2 51))

/-! ### Remainder -/

/-- The exact remainder of a division that truncates, with the sign of the dividend. There is none of
    an infinite dividend. The divisor is not zero. --/
def remainder? (x y : Float) : Option Float :=
  match decode x, decode y with
  | .nan, _ | _, .nan => some nan
  | .infinite _, _ => none
  | .finite .., .infinite _ => some x
  | .finite negative m q, .finite _ m' q' =>
    let low := min q q'
    let r := (m * Nat.pow 2 (q - low).toNat) % (m' * Nat.pow 2 (q' - low).toNat)
    if 0 ≤ low then some (ofRatio negative (r * Nat.pow 2 low.toNat) 1)
    else some (ofRatio negative r (Nat.pow 2 (-low).toNat))

/-- The quotient of two numbers that are not negative, rounded down; the divisor is not zero. --/
def floorDiv (x y : Float) : Float :=
  let q := (x - (remainder? x y).getD nan) / y
  let below := q.floor
  if q - below > 0.5 then below + 1 else below

end Binary64
end TypedImp
