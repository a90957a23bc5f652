import Mathlib.Algebra.Group.Int.Defs
import Mathlib.Algebra.Group.Nat.Defs
import TypedImp.Proofs.Typing.Rules
import TypedImp.Value.Input
import TypedImp.Value.Operation

/-! The operators on typed values. An operator that the typing rules allow gives a value of the type that they
    say, or fails for the value of an operand; the unasked conversion of an `int` to a `float` never fails,
    because no `int` of 64 bits is beyond the finite numbers. -/

namespace TypedImp

/-! ### Integers in range -/

theorem Word.inRange_iff {n : Int} : inRange n = true ↔ -2 ^ 63 ≤ n ∧ n < 2 ^ 63 := by
  rw [inRange, Bool.and_eq_true, decide_eq_true_iff, decide_eq_true_iff, minimum, maximum, Nat.pow_eq]
  omega

theorem Word.inRange_wrap (n : Int) : inRange (wrap n) = true := by
  rw [inRange_iff, wrap, Nat.pow_eq]
  have hlow := Int.le_bmod (x := n) (m := 2 ^ 64) (by decide)
  have hhigh := Int.bmod_lt (x := n) (m := 2 ^ 64) (by decide)
  omega

theorem Word.inRange_tmod {a : Int} (h : inRange a = true) (b : Int) : inRange (a.tmod b) = true := by
  rw [inRange_iff] at *
  have habs : (a.tmod b).natAbs ≤ a.natAbs := by
    rw [Int.natAbs_tmod]
    exact Nat.mod_le _ _
  rcases Int.le_total 0 a with ha | ha
  · have := Int.tmod_nonneg b ha
    omega
  · have := Int.tmod_nonneg b (a := -a) (by omega)
    rw [Int.neg_tmod] at this
    omega

namespace Binary64

/-- Below `2 ^ 64` the significand stays below `2 ^ 54`. -/
theorem scaled_lt {n : Nat} {q : Int} (hq : (n.log2 : Int) - 53 ≤ q) :
    (scaled n 1 q).1 < (scaled n 1 q).2 * 2 ^ 54 := by
  have hn : n < 2 ^ (n.log2 + 1) := Nat.lt_log2_self
  unfold scaled
  split
  · next hpos =>
    show n < 1 * 2 ^ q.toNat * 2 ^ 54
    rw [Nat.one_mul, ← Nat.pow_add]
    exact Nat.lt_of_lt_of_le hn (Nat.pow_le_pow_right (by decide) (by omega))
  · next hneg =>
    show n * 2 ^ (-q).toNat < 1 * 2 ^ 54
    rw [Nat.one_mul]
    calc n * 2 ^ (-q).toNat < 2 ^ (n.log2 + 1) * 2 ^ (-q).toNat :=
          Nat.mul_lt_mul_of_pos_right hn (Nat.two_pow_pos _)
      _ = 2 ^ (n.log2 + 1 + (-q).toNat) := (Nat.pow_add ..).symm
      _ ≤ 2 ^ 54 := Nat.pow_le_pow_right (by decide) (by omega)

theorem roundDiv_le (n d : Nat) : roundDiv n d ≤ n / d + 1 := by
  unfold roundDiv
  dsimp only
  split
  · omega
  · split
    · omega
    · omega

theorem exponentFor_bounds {n : Nat} (hn : n < 2 ^ 64) :
    (n.log2 : Int) - 53 ≤ exponentFor n 1 ∧ exponentFor n 1 ≤ 11 := by
  have hlog : n.log2 ≤ 63 := by
    rcases Nat.eq_zero_or_pos n with rfl | hpos
    · decide
    · exact Nat.le_of_lt_succ ((Nat.log2_lt (by omega)).mpr hn)
  have hone : Nat.log2 1 = 0 := by decide
  unfold exponentFor minExponent
  rw [hone]
  dsimp only
  split
  · omega
  · omega

/-- A number below `2 ^ 64` is not rounded to infinity. -/
theorem nearestBits_lt {n : Nat} (hn : n < 2 ^ 64) : nearestBits n 1 < infinityBits := by
  obtain ⟨hlow, hhigh⟩ := exponentFor_bounds hn
  have hinfinity : infinityBits = 2047 * 2 ^ 52 := rfl
  unfold nearestBits
  split
  · omega
  · extract_lets q
    cases hparts : scaled n 1 q with
    | mk a b =>
      have hscaled : a < b * 2 ^ 54 := by
        have := scaled_lt hlow
        rwa [show scaled n 1 (exponentFor n 1) = (a, b) from hparts] at this
      have hround := roundDiv_le a b
      have hdiv := Nat.div_lt_of_lt_mul hscaled
      have hexponent : (q - minExponent).toNat ≤ 1085 := by
        have hq : q ≤ 11 := hhigh
        unfold minExponent
        omega
      rw [Nat.pow_eq]
      dsimp only
      generalize (q - minExponent).toNat = exponent at *
      generalize roundDiv a b = significand at *
      omega

end Binary64

theorem Number.roundInt_of_inRange {n : Int} (h : Word.inRange n = true) : ∃ x, roundInt n = .ok x := by
  rw [Word.inRange_iff] at h
  have hfinite := Binary64.nearestBits_lt (n := n.natAbs) (by omega)
  unfold roundInt Binary64.ofInt?
  rw [if_neg (Nat.ne_of_lt hfinite)]
  exact ⟨_, rfl⟩

namespace Value

/-! ### Conversion -/

/-- A value that a type accepts becomes one of that type. -/
theorem HasTy.widen {v : Value} {s t : Ty} (h : v.HasTy s) (ht : t.accepts s = true) :
    ∃ v', v.widen t = .ok v' ∧ v'.HasTy t := by
  by_cases heq : s = t
  · subst heq
    cases h with
    | int hn => exact ⟨_, rfl, .int hn⟩
    | float => exact ⟨_, rfl, .float⟩
    | bool => exact ⟨_, rfl, .bool⟩
    | char => exact ⟨_, rfl, .char⟩
    | string => exact ⟨_, rfl, .string⟩
  · have hcases : t = .float ∧ s = .int := by
      simp only [Ty.accepts, Bool.or_eq_true, Bool.and_eq_true, decide_eq_true_eq] at ht
      exact ht.resolve_left fun hts => heq hts.symm
    obtain ⟨rfl, rfl⟩ := hcases
    cases h with
    | int hn =>
      obtain ⟨x, hx⟩ := Number.roundInt_of_inRange hn
      refine ⟨.float x, ?_, .float⟩
      show Value.float <$> Number.roundInt _ = _
      rw [hx]
      rfl

/-! ### Operators -/

theorem HasTy.eq_int {v : Value} (h : v.HasTy .int) : ∃ n, v = .int n ∧ Word.inRange n = true := by
  cases h with
  | int hn => exact ⟨_, rfl, hn⟩

theorem HasTy.eq_float {v : Value} (h : v.HasTy .float) : ∃ x, v = .float x := by
  cases h
  exact ⟨_, rfl⟩

theorem HasTy.eq_bool {v : Value} (h : v.HasTy .bool) : ∃ b, v = .bool b := by
  cases h
  exact ⟨_, rfl⟩

theorem HasTy.eq_string {v : Value} (h : v.HasTy .string) : ∃ s, v = .string s := by
  cases h
  exact ⟨_, rfl⟩

theorem HasTy.notText? {v : Value} {t : Ty} (h : v.HasTy t) : v.notText? = none := by
  cases h <;> rfl

/-- A sign takes a number to a number of the same type. -/
theorem unary_typed {op : UnaryOp} (hop : op = .plus ∨ op = .minus) {v : Value} {t : Ty} (hv : v.HasTy t)
    (ht : t.isNumeric = true) : ∃ r, unary op v = .ok r ∧ r.HasTy t := by
  cases hv with
  | int hn =>
    rcases hop with rfl | rfl
    · exact ⟨_, rfl, .int hn⟩
    · exact ⟨_, rfl, .int (Word.inRange_wrap _)⟩
  | float =>
    rcases hop with rfl | rfl
    · exact ⟨_, rfl, .float⟩
    · exact ⟨_, rfl, .float⟩
  | bool | char | string => cases ht

end Value

/-- The failures of operators that depend on the values of their operands. -/
inductive OperationError.OfValue : OperationError → Prop
  | divisionByZero : OfValue .divisionByZero
  | remainderByZero : OfValue .remainderByZero
  | infiniteDividend : OfValue .infiniteDividend

namespace Value
open OperationError (OfValue)

/-- The result has the type, or the failure depends on the values. -/
def Gives (r : Except OperationError Value) (t : Ty) : Prop :=
  (∃ v, r = .ok v ∧ v.HasTy t) ∨ ∃ e, r = .error e ∧ OfValue e

theorem gives_ok {v : Value} {t : Ty} (h : v.HasTy t) : Gives (.ok v) t := .inl ⟨v, rfl, h⟩

theorem gives_error {e : OperationError} {t : Ty} (h : OfValue e) : Gives (.error e) t := .inr ⟨e, rfl, h⟩

theorem onInts_arithmetic {op : BinaryOp} (hop : op.family = .arithmetic) {a : Int} (b : Int)
    (ha : Word.inRange a = true) : Gives (onInts op a b) .int := by
  cases op with
  | add | sub | mul => exact gives_ok (.int (Word.inRange_wrap _))
  | div =>
    rw [onInts]
    split
    · exact gives_error .divisionByZero
    · exact gives_ok (.int (Word.inRange_wrap _))
  | mod =>
    rw [onInts]
    split
    · exact gives_error .remainderByZero
    · exact gives_ok (.int (Word.inRange_tmod ha b))
  | _ => cases hop

theorem onInts_relational {op : BinaryOp} (hop : op.family = .relational) (a b : Int) :
    Gives (onInts op a b) .bool := by
  cases op with
  | lt | le | gt | ge => exact gives_ok .bool
  | _ => cases hop

theorem onFloats_arithmetic {op : BinaryOp} (hop : op.family = .arithmetic) (x y : Float) :
    Gives (onFloats op x y) .float := by
  cases op with
  | add | sub | mul => exact gives_ok .float
  | div =>
    rw [onFloats]
    split
    · exact gives_error .divisionByZero
    · exact gives_ok .float
  | mod =>
    rw [onFloats]
    split
    · exact gives_error .remainderByZero
    · split
      · exact gives_error .infiniteDividend
      · exact gives_ok .float
  | _ => cases hop

theorem onFloats_relational {op : BinaryOp} (hop : op.family = .relational) (x y : Float) :
    Gives (onFloats op x y) .bool := by
  cases op with
  | lt | le | gt | ge => exact gives_ok .bool
  | _ => cases hop

/-- The right operand beside the left one has the left one's type, if that accepts its own. -/
theorem beside_typed {a b : Value} {s t : Ty} (ha : a.HasTy s) (hb : b.HasTy t) (hst : s.accepts t = true) :
    ∃ b', beside a b = .ok b' ∧ b'.HasTy s := by
  cases ha with
  | float =>
    obtain ⟨b', hb', hty⟩ := hb.widen hst
    exact ⟨b', by rw [beside, hb'], hty⟩
  | int | bool | char | string =>
    rw [Ty.eq_of_accepts hst (by decide)] at hb
    exact ⟨b, rfl, hb⟩

theorem binary_of_beside {op : BinaryOp} {a b b' : Value} : beside a b = .ok b' →
    binary op a b = match op with
      | .eq => do .ok (bool (← compared a b'))
      | .ne => do .ok (bool (!(← compared a b')))
      | op =>
        match a, b' with
        | int m, int n => onInts op m n
        | float x, float y => onFloats op x y
        | string s, string t =>
          if op = .add then .ok (string (s ++ t)) else .error (.unsupported op .string .string)
        | a, b => onLoose op a b := by
  intro h
  rw [binary, h]
  rfl

theorem binary_equality {op : BinaryOp} (hop : op.family = .equality) {a b : Value} {s t : Ty} (ha : a.HasTy s)
    (hb : b.HasTy t) (hst : s.accepts t = true) : Gives (binary op a b) .bool := by
  obtain ⟨b', hbeside, hb'⟩ := beside_typed ha hb hst
  have hcompared : compared a b' = .ok (a.same b') := by
    rw [compared, ha.ty_eq, hb'.ty_eq, if_pos rfl]
  rw [binary_of_beside hbeside]
  cases op with
  | eq | ne =>
    dsimp only
    rw [hcompared]
    exact gives_ok .bool
  | _ => cases hop

theorem binary_numeric {op : BinaryOp} {u : Ty} {a b : Value} {s t : Ty} (ha : a.HasTy s) (hb : b.HasTy t)
    (hs : s.isNumeric = true) (hst : s.accepts t = true) (heq : op ≠ .eq) (hne : op ≠ .ne)
    (hints : ∀ m n, Word.inRange m = true → s = .int → Gives (onInts op m n) u)
    (hfloats : ∀ x y, s = .float → Gives (onFloats op x y) u) : Gives (binary op a b) u := by
  obtain ⟨b', hbeside, hb'⟩ := beside_typed ha hb hst
  rw [binary_of_beside hbeside]
  cases ha with
  | int hm =>
    obtain ⟨n, rfl, -⟩ := hb'.eq_int
    cases op with
    | eq => exact absurd rfl heq
    | ne => exact absurd rfl hne
    | _ => exact hints _ n hm rfl
  | float =>
    obtain ⟨y, rfl⟩ := hb'.eq_float
    cases op with
    | eq => exact absurd rfl heq
    | ne => exact absurd rfl hne
    | _ => exact hfloats _ y rfl
  | bool | char | string => cases hs

theorem binary_arithmetic {op : BinaryOp} (hop : op.family = .arithmetic) {a b : Value} {s t : Ty}
    (ha : a.HasTy s) (hb : b.HasTy t) (hs : s.isNumeric = true) (hst : s.accepts t = true) :
    Gives (binary op a b) s := by
  refine binary_numeric ha hb hs hst (by rintro rfl; cases hop) (by rintro rfl; cases hop) ?_ ?_
  · rintro m n hm rfl
    exact onInts_arithmetic hop n hm
  · rintro x y rfl
    exact onFloats_arithmetic hop x y

theorem binary_relational {op : BinaryOp} (hop : op.family = .relational) {a b : Value} {s t : Ty}
    (ha : a.HasTy s) (hb : b.HasTy t) (hs : s.isNumeric = true) (hst : s.accepts t = true) :
    Gives (binary op a b) .bool := by
  refine binary_numeric ha hb hs hst (by rintro rfl; cases hop) (by rintro rfl; cases hop) ?_ ?_
  · intro m n _ _
    exact onInts_relational hop m n
  · intro x y _
    exact onFloats_relational hop x y

theorem binary_concat {a b : Value} (ha : a.HasTy .string) (hb : b.HasTy .string) :
    Gives (binary .add a b) .string := by
  obtain ⟨s, rfl⟩ := ha.eq_string
  obtain ⟨t, rfl⟩ := hb.eq_string
  exact gives_ok .string

/-! ### Input -/

/-- A line of input gives a value of the type, or its text is at fault. -/
theorem read_gives {t : Ty} (ht : t ≠ .void) (text : String) :
    (∃ v, read t text = .ok v ∧ v.HasTy t) ∨ ∃ e, read t text = .error e ∧ ∀ name, e ≠ .noReading name := by
  cases t with
  | int =>
    rw [show read .int text = readInt text from rfl, readInt]
    split
    · exact .inr ⟨_, rfl, fun _ => InputError.noConfusion⟩
    · split
      · next hn => exact .inl ⟨_, rfl, .int hn⟩
      · exact .inr ⟨_, rfl, fun _ => InputError.noConfusion⟩
  | float =>
    rw [show read .float text = readFloat text from rfl, readFloat]
    split
    · exact .inr ⟨_, rfl, fun _ => InputError.noConfusion⟩
    · exact .inl ⟨_, rfl, .float⟩
  | bool =>
    rw [show read .bool text = readBool text from rfl, readBool]
    split
    · exact .inl ⟨_, rfl, .bool⟩
    · exact .inl ⟨_, rfl, .bool⟩
    · exact .inr ⟨_, rfl, fun _ => InputError.noConfusion⟩
  | char => exact .inl ⟨_, rfl, .char⟩
  | string => exact .inl ⟨_, rfl, .string⟩
  | void => exact absurd rfl ht

end Value
end TypedImp
