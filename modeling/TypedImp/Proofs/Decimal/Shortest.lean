import Mathlib.Algebra.Group.Nat.Defs
import TypedImp.Decimal.Shortest
import TypedImp.Text.Digit

/-! The digits of the shortest text. They begin with a zero only if they are those of zero, unless no grid at all has
    a hit. -/

namespace TypedImp
namespace Decimal

/-! ### Digits of a natural number -/

theorem digitsOf_lt (n : Nat) : ∀ k ∈ digitsOf n, k < 10 := by
  fun_induction digitsOf n with
  | case1 => exact fun _ h => nomatch h
  | case2 n ih =>
    intro k hk
    rcases List.mem_append.mp hk with hk | hk
    · exact ih k hk
    · rw [List.mem_singleton.mp hk]
      exact Nat.mod_lt _ (by decide)

theorem exists_digitsOf {n : Nat} (h : n ≠ 0) : ∃ k ks, digitsOf n = k :: ks ∧ k ≠ 0 := by
  fun_induction digitsOf n with
  | case1 => exact absurd rfl h
  | case2 n ih =>
    by_cases hn : (n + 1) / 10 = 0
    · refine ⟨(n + 1) % 10, [], ?_, by omega⟩
      rw [hn, digitsOf, List.nil_append]
    · obtain ⟨k, ks, hks, hk⟩ := ih hn
      exact ⟨k, ks ++ [(n + 1) % 10], by rw [hks, List.cons_append], hk⟩

/-- The first digit stays when zeros at the end go. -/
theorem dropLast_zeros {k : Nat} (hk : k ≠ 0) (ks : List Nat) :
    ∃ ls, (((k :: ks).reverse.dropWhile (· = 0)).reverse) = k :: ls := by
  rw [List.reverse_cons, List.dropWhile_append]
  split
  · refine ⟨[], ?_⟩
    rw [List.dropWhile_cons_of_neg (by simp [hk])]
    rfl
  · exact ⟨(ks.reverse.dropWhile (· = 0)).reverse, by rw [List.reverse_append]; rfl⟩

/-! ### Values of digits -/

theorem ofDigits_eq (n : Nat) (ds : List Nat) : Text.ofDigits n ds = n * 10 ^ ds.length + Text.ofDigits 0 ds := by
  induction ds generalizing n with
  | nil => simp [Text.ofDigits]
  | cons d ds ih =>
    show Text.ofDigits (n * 10 + d) ds = _ + Text.ofDigits (0 * 10 + d) ds
    rw [ih (n * 10 + d), ih (0 * 10 + d), List.length_cons, Nat.pow_succ, Nat.add_mul, Nat.zero_mul, Nat.zero_add,
      Nat.mul_assoc, Nat.mul_comm 10, Nat.add_assoc]

theorem ofDigits_append (ds es : List Nat) :
    Text.ofDigits 0 (ds ++ es) = Text.ofDigits 0 ds * 10 ^ es.length + Text.ofDigits 0 es := by
  rw [← ofDigits_eq]
  exact List.foldl_append

theorem ofDigits_zeros (n : Nat) : Text.ofDigits 0 (List.replicate n 0) = 0 := by
  induction n with
  | zero => rfl
  | succ n ih => exact ih

theorem ofDigits_lt {ds : List Nat} (h : ∀ k ∈ ds, k < 10) : Text.ofDigits 0 ds < 10 ^ ds.length := by
  induction ds with
  | nil => decide
  | cons d ds ih =>
    have hds := ih fun k hk => h k (List.mem_cons_of_mem _ hk)
    have hd : (d + 1) * 10 ^ ds.length ≤ 10 * 10 ^ ds.length :=
      Nat.mul_le_mul_right _ (h d List.mem_cons_self)
    rw [Nat.add_mul, Nat.one_mul] at hd
    show Text.ofDigits (0 * 10 + d) ds < _
    rw [ofDigits_eq, Nat.zero_mul, Nat.zero_add, List.length_cons, Nat.pow_succ, Nat.mul_comm (10 ^ _)]
    omega

theorem ofDigits_digitsOf (n : Nat) : Text.ofDigits 0 (digitsOf n) = n := by
  fun_induction digitsOf n with
  | case1 => rfl
  | case2 n ih =>
    rw [ofDigits_append, ih]
    show (n + 1) / 10 * 10 ^ 1 + (0 * 10 + (n + 1) % 10) = n + 1
    omega

theorem length_digitsOf_le {n k : Nat} (h : n ≤ 10 ^ k) : (digitsOf n).length ≤ k + 1 := by
  fun_induction digitsOf n generalizing k with
  | case1 => exact Nat.zero_le _
  | case2 n ih =>
    rw [List.length_append, List.length_singleton]
    cases k with
    | zero =>
      have : n = 0 := by
        rw [Nat.pow_zero] at h
        omega
      simp [this, digitsOf]
    | succ k =>
      rw [Nat.pow_succ] at h
      have := ih (k := k) (by omega)
      omega

/-- Zeros at the end count as powers of ten. -/
theorem ofDigits_dropLast_zeros (ds : List Nat) :
    ((ds.reverse.dropWhile (· = 0)).reverse).length ≤ ds.length ∧
      Text.ofDigits 0 ds = Text.ofDigits 0 (ds.reverse.dropWhile (· = 0)).reverse *
        10 ^ (ds.length - ((ds.reverse.dropWhile (· = 0)).reverse).length) := by
  have hzeros : ds.reverse.takeWhile (· = 0) = List.replicate (ds.reverse.takeWhile (· = 0)).length 0 :=
    List.eq_replicate_iff.mpr ⟨rfl, fun k hk => by
      simpa using List.all_eq_true.mp List.all_takeWhile k hk⟩
  have hsplit : ds = (ds.reverse.dropWhile (· = 0)).reverse ++ List.replicate (ds.reverse.takeWhile (· = 0)).length 0 := by
    rw [← List.reverse_replicate, ← hzeros, ← List.reverse_append, List.takeWhile_append_dropWhile, List.reverse_reverse]
  generalize (ds.reverse.dropWhile (· = 0)).reverse = es at *
  generalize (ds.reverse.takeWhile (· = 0)).length = n at *
  rw [hsplit, List.length_append, List.length_replicate, Nat.add_sub_cancel_left, ofDigits_append, ofDigits_zeros,
    List.length_replicate]
  exact ⟨Nat.le_add_right _ _, rfl⟩

/-! ### Grids -/

/-- Zero does not round to a number that is not zero. -/
theorem roundingOf_holds_zero {m : Nat} (hm : m ≠ 0) (q e : Int) : (roundingOf m q).holds 0 e = false := by
  have hpow (b : Nat) (i : Int) (hb : 0 < b) : 0 < (if 0 ≤ i then Nat.pow b i.toNat else 1) := by
    split
    · exact Nat.pow_pos hb
    · exact Nat.one_pos
  have hlow : 0 < (roundingOf m q).low := by
    unfold roundingOf
    refine Nat.mul_pos ?_ (hpow 2 (q - 2) (by decide))
    split <;> omega
  have hscale : 0 < (if 0 ≤ e then 1 else Nat.pow 10 (-e).toNat) := by
    split
    · exact Nat.one_pos
    · exact Nat.pow_pos (by decide)
  have hproduct := Nat.mul_pos hlow hscale
  unfold Rounding.holds
  simp only [Nat.zero_mul, ite_self]
  split
  · rw [Bool.and_eq_false_iff, decide_eq_false_iff_not]
    exact .inl (Nat.not_le.mpr hproduct)
  · rw [Bool.and_eq_false_iff, decide_eq_false_iff_not]
    exact .inl (Nat.not_lt_zero _)

theorem onGrid?_ne_zero {r : Rounding} {e : Int} (hzero : r.holds 0 e = false) {c : Nat}
    (h : r.onGrid? e = some c) : c ≠ 0 := by
  unfold Rounding.onGrid? at h
  dsimp only at h
  generalize (if 0 ≤ e then r.mid else r.mid * Nat.pow 10 (-e).toNat) = a at h
  generalize (if 0 ≤ e then r.unit * Nat.pow 10 e.toNat else r.unit) = b at h
  generalize a / b = k at h
  have hbelow : r.holds k e = true → k ≠ 0 := by
    rintro hholds rfl
    rw [hzero] at hholds
    cases hholds
  split at h
  · next hlower _ =>
    have := hbelow hlower
    have hc := Option.some.inj h
    split at hc
    · omega
    · split at hc <;> omega
  · next hlower _ =>
    exact Option.some.inj h ▸ hbelow hlower
  · have := Option.some.inj h
    omega
  · cases h

theorem firstGrid_cases {r : Rounding} (hzero : ∀ e, r.holds 0 e = false) (point : Int) (ns : List Nat) :
    r.firstGrid point ns = (0, 0) ∨ (r.firstGrid point ns).1 ≠ 0 := by
  induction ns with
  | nil => exact .inl rfl
  | cons n ns ih =>
    unfold Rounding.firstGrid
    split
    · next h => exact .inr (onGrid?_ne_zero (hzero _) h)
    · exact ih

/-! ### The shortest digits -/

/-- Digits in base ten. They begin with a zero only if they are those of zero, with the point behind it. -/
structure Digits.Normal (d : Digits) : Prop where
  lt_ten : ∀ k ∈ d.digits, k < 10
  leading : d = ⟨[0], 1⟩ ∨ ∃ k ks, d.digits = k :: ks ∧ k ≠ 0

theorem shortest_cases (m : Nat) (q : Int) : (shortest m q).Normal ∨ m ≠ 0 ∧ shortest m q = ⟨[], 0⟩ := by
  by_cases hm : m = 0
  · refine .inl ⟨?_, ?_⟩
    · simp [shortest, hm]
    · simp [shortest, hm]
  · unfold shortest
    rw [if_neg hm]
    dsimp only
    rcases firstGrid_cases (roundingOf_holds_zero hm q) (pointOf (roundingOf m q).mid (roundingOf m q).unit)
      ((List.range 17).map (· + 1)) with h | h
    · refine .inr ⟨hm, ?_⟩
      rw [h]
      simp [digitsOf]
    · obtain ⟨k, ks, hks, hk⟩ := exists_digitsOf h
      obtain ⟨ls, hls⟩ := dropLast_zeros hk ks
      refine .inl ⟨fun l hl => ?_, .inr ⟨k, ls, ?_, hk⟩⟩
      · exact digitsOf_lt _ l (List.mem_reverse.mp ((List.dropWhile_sublist _).subset (List.mem_reverse.mp hl)))
      · dsimp only
        rw [hks, hls]

end Decimal
end TypedImp
