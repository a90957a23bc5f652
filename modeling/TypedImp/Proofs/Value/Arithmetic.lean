import TypedImp.Proofs.Value.Proper

/-! Arithmetic on integers of 64 bits. A result beyond the range is brought back into it by a multiple of `2 ^ 64`;
    division drops the fraction of the quotient; the remainder is what the quotient leaves before it is brought
    into range. All of it is the arithmetic of signed bit vectors. -/

namespace TypedImp

/-! ### Wrapping around -/

namespace Word

/-- `r` and no other number of the range differs from `n` by a multiple of `2 ^ 64`. -/
def Wraps (n r : Int) : Prop := ∀ m : Int, (-2 ^ 63 ≤ m ∧ m ≤ 2 ^ 63 - 1) ∧ (2 ^ 64 : Int) ∣ m - n ↔ m = r

theorem wraps_wrap (n : Int) : Wraps n (wrap n) := by
  intro m
  have hiff := Int.bmod_eq_iff (a := n) (b := 2 ^ 64) (c := m) (by decide)
  rw [wrap, Nat.pow_eq, eq_comm, hiff]
  omega

theorem wrap_of_inRange {n : Int} (h : inRange n = true) : wrap n = n := by
  rw [inRange_iff] at h
  have hself : (2 ^ 64 : Int) ∣ n - n := by rw [Int.sub_self]; exact Int.dvd_zero _
  exact ((wraps_wrap n n).mp ⟨by omega, hself⟩).symm

/-- The bits of a number. -/
def bits (n : Int) : BitVec 64 := BitVec.ofInt 64 n

section
variable {x y : Int}

theorem toInt_bits (h : inRange x = true) : (bits x).toInt = x := (BitVec.toInt_ofInt x).trans (wrap_of_inRange h)

theorem bits_inj (hx : inRange x = true) (hy : inRange y = true) : bits x = bits y ↔ x = y := by
  rw [← BitVec.toInt_inj, toInt_bits hx, toInt_bits hy]

theorem bits_beq (hx : inRange x = true) (hy : inRange y = true) : (bits x == bits y) = decide (x = y) := by
  rw [Bool.eq_iff_iff, beq_iff_eq, decide_eq_true_iff, bits_inj hx hy]

/-! ### Division -/

/-- `q` is the quotient of `x` and `y` without its fraction, and `r` is what it leaves of `x`. -/
structure Truncates (x y q r : Int) : Prop where
  truncated : q = x.sign * y.sign * (x.natAbs / y.natAbs : Nat)
  division : x = q * y + r
  small : r.natAbs < y.natAbs
  sign : r = 0 ∨ r.sign = x.sign

theorem tdiv_eq_sign_mul (x y : Int) : x.tdiv y = x.sign * y.sign * (x.natAbs / y.natAbs : Nat) := by
  have habs : (x.tdiv y).natAbs = x.natAbs / y.natAbs := Int.natAbs_tdiv x y
  have hsign := Int.sign_tdiv x y
  rw [← Int.sign_mul_natAbs (x.tdiv y), habs, hsign]
  split
  · next hlt => rw [Nat.div_eq_of_lt hlt, Int.natCast_zero, Int.mul_zero, Int.mul_zero]
  · rfl

theorem truncates_tdiv (x : Int) (hy : y ≠ 0) : Truncates x y (x.tdiv y) (x.tmod y) where
  truncated := tdiv_eq_sign_mul x y
  division := (Int.tdiv_mul_add_tmod x y).symm
  small := by
    rw [Int.natAbs_tmod]
    exact Nat.mod_lt _ (Int.natAbs_pos.mpr hy)
  sign := by
    have hsign := Int.sign_tmod x y
    split at hsign
    · exact .inl (Int.sign_eq_zero_iff_zero.mp hsign)
    · exact .inr hsign

end
end Word

namespace Value
open Word (bits inRange)

/-! ### Operators on integers -/

/-- The operator gives an `int` that wraps the exact result, and that has the given bits. -/
def IsWord (answer : Except OperationError Value) (exact : Int) (b : BitVec 64) : Prop :=
  ∃ r, answer = .ok (.int r) ∧ Word.Wraps exact r ∧ r = b.toInt

section
variable {x y : Int} (hx : inRange x = true) (hy : inRange y = true)
include hx

theorem negation_isWord : IsWord (unary .minus (.int x)) (-x) (-bits x) :=
  ⟨Word.wrap (-x), rfl, Word.wraps_wrap _, by rw [BitVec.toInt_neg, Word.toInt_bits hx]; rfl⟩

include hy

theorem sum_isWord : IsWord (binary .add (.int x) (.int y)) (x + y) (bits x + bits y) :=
  ⟨Word.wrap (x + y), rfl, Word.wraps_wrap _, by
    rw [BitVec.toInt_add, Word.toInt_bits hx, Word.toInt_bits hy]; rfl⟩

theorem difference_isWord : IsWord (binary .sub (.int x) (.int y)) (x - y) (bits x - bits y) :=
  ⟨Word.wrap (x - y), rfl, Word.wraps_wrap _, by
    rw [BitVec.toInt_sub, Word.toInt_bits hx, Word.toInt_bits hy]; rfl⟩

theorem product_isWord : IsWord (binary .mul (.int x) (.int y)) (x * y) (bits x * bits y) :=
  ⟨Word.wrap (x * y), rfl, Word.wraps_wrap _, by
    rw [BitVec.toInt_mul, Word.toInt_bits hx, Word.toInt_bits hy]; rfl⟩

theorem quotient_isWord (hzero : y ≠ 0) :
    IsWord (binary .div (.int x) (.int y)) (x.tdiv y) ((bits x).sdiv (bits y)) := by
  refine ⟨Word.wrap (x.tdiv y), ?_, Word.wraps_wrap _, ?_⟩
  · show (if y = 0 then _ else _) = _
    rw [if_neg hzero]
  · rw [BitVec.toInt_sdiv, Word.toInt_bits hx, Word.toInt_bits hy]
    rfl

/-- The remainder needs no wrapping. -/
theorem remainder_eq (hzero : y ≠ 0) : binary .mod (.int x) (.int y) = .ok (.int ((bits x).srem (bits y)).toInt) := by
  rw [BitVec.toInt_srem, Word.toInt_bits hx, Word.toInt_bits hy]
  show (if y = 0 then _ else _) = _
  rw [if_neg hzero]

end

/-- What the operators compute from two integers of 64 bits. -/
structure ComputesWords (x y : Int) : Prop where
  negation : IsWord (unary .minus (.int x)) (-x) (-bits x)
  sum : IsWord (binary .add (.int x) (.int y)) (x + y) (bits x + bits y)
  difference : IsWord (binary .sub (.int x) (.int y)) (x - y) (bits x - bits y)
  product : IsWord (binary .mul (.int x) (.int y)) (x * y) (bits x * bits y)
  division : y ≠ 0 → ∃ q r, Word.Truncates x y q r ∧
    IsWord (binary .div (.int x) (.int y)) q ((bits x).sdiv (bits y)) ∧
    binary .mod (.int x) (.int y) = .ok (.int r) ∧ r = ((bits x).srem (bits y)).toInt
  byZero : y = 0 →
    (∃ e, binary .div (.int x) (.int y) = .error e ∧ e.complaint? = some "division by zero") ∧
    ∃ e, binary .mod (.int x) (.int y) = .error e ∧ e.complaint? = some "modulo by zero"
  less : binary .lt (.int x) (.int y) = .ok (.bool (x < y)) ∧ (bits x).slt (bits y) = decide (x < y)
  atMost : binary .le (.int x) (.int y) = .ok (.bool (x ≤ y)) ∧ (bits x).sle (bits y) = decide (x ≤ y)
  greater : binary .gt (.int x) (.int y) = .ok (.bool (y < x)) ∧ (bits y).slt (bits x) = decide (y < x)
  atLeast : binary .ge (.int x) (.int y) = .ok (.bool (y ≤ x)) ∧ (bits y).sle (bits x) = decide (y ≤ x)
  same : binary .eq (.int x) (.int y) = .ok (.bool (x = y)) ∧ (bits x == bits y) = decide (x = y)
  different : binary .ne (.int x) (.int y) = .ok (.bool (x ≠ y)) ∧ (bits x != bits y) = decide (x ≠ y)

/-- The operators are those of signed bit vectors of 64 bits, and wrapping is right for integers of any size. -/
theorem operators_compute_words {x y : Int} (hx : -2 ^ 63 ≤ x ∧ x ≤ 2 ^ 63 - 1) (hy : -2 ^ 63 ≤ y ∧ y ≤ 2 ^ 63 - 1) :
    ComputesWords x y ∧ ∀ n, Word.Wraps n (Word.wrap n) := by
  have hx' : inRange x = true := proper_int_iff.mp hx
  have hy' : inRange y = true := proper_int_iff.mp hy
  refine ⟨?_, Word.wraps_wrap⟩
  constructor
  case negation => exact negation_isWord hx'
  case sum => exact sum_isWord hx' hy'
  case difference => exact difference_isWord hx' hy'
  case product => exact product_isWord hx' hy'
  case division =>
    intro hzero
    have hremainder : x.tmod y = ((bits x).srem (bits y)).toInt := by
      rw [BitVec.toInt_srem, Word.toInt_bits hx', Word.toInt_bits hy']
    exact ⟨x.tdiv y, x.tmod y, Word.truncates_tdiv x hzero, quotient_isWord hx' hy' hzero,
      hremainder ▸ remainder_eq hx' hy' hzero, hremainder⟩
  case byZero =>
    rintro rfl
    exact ⟨⟨.divisionByZero, rfl, rfl⟩, .remainderByZero, rfl, rfl⟩
  case less => exact ⟨rfl, by rw [BitVec.slt_eq_decide, Word.toInt_bits hx', Word.toInt_bits hy']⟩
  case atMost => exact ⟨rfl, by rw [BitVec.sle_eq_decide, Word.toInt_bits hx', Word.toInt_bits hy']⟩
  case greater => exact ⟨rfl, by rw [BitVec.slt_eq_decide, Word.toInt_bits hx', Word.toInt_bits hy']⟩
  case atLeast => exact ⟨rfl, by rw [BitVec.sle_eq_decide, Word.toInt_bits hx', Word.toInt_bits hy']⟩
  case same => exact ⟨rfl, Word.bits_beq hx' hy'⟩
  case different =>
    simp only [bne, Word.bits_beq hx' hy', ne_eq, decide_not]
    exact ⟨rfl, trivial⟩

/-- The least number divided by minus one is itself, and leaves nothing. -/
theorem operators_compute_least :
    (-2 ^ 63 ≤ (-2 ^ 63 : Int) ∧ (-2 ^ 63 : Int) ≤ 2 ^ 63 - 1) ∧ (-2 ^ 63 ≤ (-1 : Int) ∧ (-1 : Int) ≤ 2 ^ 63 - 1) ∧
    ComputesWords (-2 ^ 63) (-1) ∧ binary .div (.int (-2 ^ 63)) (.int (-1)) = .ok (.int (-2 ^ 63)) ∧
    binary .mod (.int (-2 ^ 63)) (.int (-1)) = .ok (.int 0) :=
  ⟨by decide, by decide, (operators_compute_words (by decide) (by decide)).1, rfl, rfl⟩

end Value
end TypedImp
