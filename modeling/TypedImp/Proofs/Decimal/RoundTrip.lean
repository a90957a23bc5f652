import TypedImp.Proofs.Binary64
import TypedImp.Proofs.Decimal.Layout

/-! The shortest digits of a number round to the number, so that it is read back from its text. Seventeen digits are
    enough, because the multiples of their last unit lie closer together than what rounds to a number. -/

namespace TypedImp
namespace Decimal
open Binary64 (Canonical RoundsTo quartersBelow)
open Token (decimalValue)

/-! ### Powers as ratios -/

theorem zpow_eq_div {b : Nat} (hb : 0 < b) (e : ℤ) :
    0 < (if 0 ≤ e then Nat.pow b e.toNat else 1) ∧ 0 < (if 0 ≤ e then 1 else Nat.pow b (-e).toNat) ∧
      (b : ℚ) ^ e = ((if 0 ≤ e then Nat.pow b e.toNat else 1 : ℕ) : ℚ) /
        ((if 0 ≤ e then 1 else Nat.pow b (-e).toNat : ℕ) : ℚ) := by
  have hpow (i : Nat) : Nat.pow b i = b ^ i := rfl
  split
  · next he =>
    obtain ⟨i, rfl⟩ := Int.eq_ofNat_of_zero_le he
    refine ⟨Nat.pow_pos hb, Nat.one_pos, ?_⟩
    rw [hpow, Int.toNat_natCast, zpow_natCast]
    push_cast
    rw [div_one]
  · next he =>
    obtain ⟨i, hi⟩ : ∃ i : Nat, e = -i := ⟨(-e).toNat, by omega⟩
    refine ⟨Nat.one_pos, Nat.pow_pos hb, ?_⟩
    rw [hpow, hi, neg_neg, Int.toNat_natCast, zpow_neg, zpow_natCast]
    push_cast
    rw [one_div]

/-- Powers of two beside powers of ten with about the same number of digits. -/
theorem two_pow_bounds : ∀ k < 1200, Nat.pow 10 (k * 30103 / 100000) ≤ 10 * Nat.pow 2 k ∧
    4 * Nat.pow 2 k ≤ Nat.pow 10 (k * 30103 / 100000 + 3) ∧
    Nat.pow 2 k ≤ Nat.pow 10 ((k * 30103 + 99999) / 100000 + 1) ∧
    4 * Nat.pow 10 ((k * 30103 + 99999) / 100000) ≤ 1000 * Nat.pow 2 k := by
  decide +kernel

theorem two_zpow_bounds {l : ℤ} (hlow : -1200 < l) (hhigh : l < 1200) :
    (10 : ℚ) ^ ((l * 30103).fdiv 100000 - 1) ≤ 2 ^ l ∧ (4 : ℚ) * 2 ^ l ≤ 10 ^ ((l * 30103).fdiv 100000 + 3) := by
  have hpow (b i : Nat) : Nat.pow b i = b ^ i := rfl
  have hfdiv : (l * 30103).fdiv 100000 = l * 30103 / 100000 := Int.fdiv_eq_ediv_of_nonneg _ (by decide)
  rcases Int.le_total 0 l with hl | hl
  · obtain ⟨k, rfl⟩ := Int.eq_ofNat_of_zero_le hl
    obtain ⟨h₁, h₂, -, -⟩ := two_pow_bounds k (by omega)
    have he : ((k : ℤ) * 30103).fdiv 100000 = (k * 30103 / 100000 : ℕ) := by omega
    rw [he]
    simp only [hpow] at h₁ h₂
    have h₁' : (10 : ℚ) ^ (k * 30103 / 100000) ≤ 10 * 2 ^ k := by exact_mod_cast h₁
    have h₂' : (4 : ℚ) * 2 ^ k ≤ 10 ^ (k * 30103 / 100000 + 3) := by exact_mod_cast h₂
    constructor
    · rw [zpow_sub₀ (by norm_num), zpow_natCast, zpow_natCast, zpow_one, div_le_iff₀ (by norm_num)]
      linarith
    · rw [← Nat.cast_ofNat (n := 3), ← Nat.cast_add, zpow_natCast, zpow_natCast]
      exact h₂'
  · obtain ⟨k, rfl⟩ : ∃ k : Nat, l = -k := ⟨(-l).toNat, by omega⟩
    obtain ⟨-, -, h₁, h₂⟩ := two_pow_bounds k (by omega)
    have he : (-(k : ℤ) * 30103).fdiv 100000 = -((k * 30103 + 99999) / 100000 : ℕ) := by omega
    rw [he]
    generalize (k * 30103 + 99999) / 100000 = g at *
    simp only [hpow] at h₁ h₂
    have h₁' : (2 : ℚ) ^ k ≤ 10 ^ (g + 1) := by exact_mod_cast h₁
    have h₂' : (4 : ℚ) * 10 ^ g ≤ 1000 * 2 ^ k := by exact_mod_cast h₂
    constructor
    · rw [← neg_add', zpow_neg, zpow_neg, ← Nat.cast_one, ← Nat.cast_add, zpow_natCast, zpow_natCast]
      exact inv_anti₀ (by positivity) h₁'
    · rw [zpow_add₀ (by norm_num), zpow_neg, zpow_neg, zpow_natCast, zpow_natCast, inv_mul_eq_div, ← div_eq_mul_inv,
        div_le_div_iff₀ (by positivity) (by positivity)]
      norm_num
      linarith

/-! ### Where the point stands -/

theorem belowPower_iff (a : Nat) {b : Nat} (hb : 0 < b) (e : ℤ) : belowPower a b e = true ↔ (a : ℚ) / b < 10 ^ e := by
  obtain ⟨-, hden, hpower⟩ := zpow_eq_div (b := 10) (by decide) e
  rw [Nat.cast_ofNat] at hpower
  rw [hpower, div_lt_div_iff₀ (by exact_mod_cast hb) (by exact_mod_cast hden), belowPower]
  split
  · rw [Nat.cast_one, mul_one, decide_eq_true_iff, mul_comm]
    exact_mod_cast Iff.rfl
  · rw [Nat.cast_one, one_mul, decide_eq_true_iff]
    exact_mod_cast Iff.rfl

/-- The point of a ratio stands where the next power of ten is. -/
theorem pointOf_spec {a b : Nat} (ha : a ≠ 0) (hb : b ≠ 0) (hlow : -1200 < (a.log2 : ℤ) - b.log2 - 1)
    (hhigh : (a.log2 : ℤ) - b.log2 - 1 < 1200) :
    (10 : ℚ) ^ (pointOf a b - 1) ≤ a / b ∧ (a : ℚ) / b < 10 ^ pointOf a b := by
  obtain ⟨hleast, hmost⟩ := Binary64.ratio_bounds ha hb
  obtain ⟨hten, hten'⟩ := two_zpow_bounds hlow hhigh
  have hfour : (2 : ℚ) ^ ((a.log2 : ℤ) - b.log2 + 1) = 4 * 2 ^ ((a.log2 : ℤ) - b.log2 - 1) := by
    rw [Binary64.two_zpow_sub_two]
    exact congrArg _ (congrArg _ (by ring))
  rw [hfour] at hmost
  have hbelow (e : ℤ) := belowPower_iff a (Nat.pos_of_ne_zero hb) e
  unfold pointOf
  dsimp only
  generalize (((a.log2 : ℤ) - b.log2 - 1) * 30103).fdiv 100000 = e at *
  split
  · next h => exact ⟨le_trans hten hleast.le, (hbelow e).mp h⟩
  · next h =>
    split
    · next h' => exact ⟨by rw [add_sub_cancel_right]; exact not_lt.mp (mt (hbelow e).mpr h), (hbelow _).mp h'⟩
    · next h' =>
      split
      · next h'' =>
        refine ⟨?_, (hbelow _).mp h''⟩
        rw [show e + 2 - 1 = e + 1 by ring]
        exact not_lt.mp (mt (hbelow _).mpr h')
      · next h'' =>
        refine ⟨?_, lt_of_lt_of_le hmost hten'⟩
        rw [show e + 3 - 1 = e + 2 by ring]
        exact not_lt.mp (mt (hbelow _).mpr h'')

/-! ### Grids -/

section
variable {m : Nat} {q : ℤ}

theorem roundingOf_ratio (m k : Nat) (q : ℤ) :
    0 < (roundingOf m q).unit ∧
      ((k * (if 0 ≤ q - 2 then Nat.pow 2 (q - 2).toNat else 1) : ℕ) : ℚ) / (roundingOf m q).unit = k * 2 ^ (q - 2) := by
  obtain ⟨-, hden, hpower⟩ := zpow_eq_div (b := 2) (by decide) (q - 2)
  refine ⟨hden, ?_⟩
  rw [Nat.cast_ofNat] at hpower
  rw [hpower, Nat.cast_mul, mul_div_assoc]
  rfl

theorem roundingOf_mid (m : Nat) (q : ℤ) : ((roundingOf m q).mid : ℚ) / (roundingOf m q).unit = m * 2 ^ q := by
  refine (roundingOf_ratio m (4 * m) q).2.trans ?_
  rw [Binary64.two_zpow_sub_two q]
  push_cast
  ring

/-- The test for rounding compares with the ends of what rounds to the number. -/
theorem holds_iff (hm : m ≠ 0) (c : Nat) (e : ℤ) : (roundingOf m q).holds c e = true ↔ RoundsTo m q (c * 10 ^ e) := by
  obtain ⟨hnum, hden, hpower⟩ := zpow_eq_div (b := 10) (by decide) e
  rw [Nat.cast_ofNat] at hpower
  have hbelow : quartersBelow m q ≤ 4 * m := by
    unfold quartersBelow
    split <;> omega
  have hquarters : (if m = Nat.pow 2 52 && Binary64.minExponent < q then 1 else 2) = quartersBelow m q := by
    simp only [quartersBelow, Bool.and_eq_true, decide_eq_true_eq, Nat.pow_eq]
  obtain ⟨hunit, hlow⟩ := roundingOf_ratio m (4 * m - quartersBelow m q) q
  have hhigh := (roundingOf_ratio m (4 * m + 2) q).2
  have hvalue : (if 0 ≤ e then c * Nat.pow 10 e.toNat * (roundingOf m q).unit else c * (roundingOf m q).unit) =
      c * (if 0 ≤ e then Nat.pow 10 e.toNat else 1) * (roundingOf m q).unit := by
    split
    · rfl
    · rw [mul_one]
  unfold Rounding.holds RoundsTo
  rw [hvalue, hpower]
  have hlow' : (roundingOf m q).low = (4 * m - quartersBelow m q) * (if 0 ≤ q - 2 then Nat.pow 2 (q - 2).toNat else 1) :=
    hquarters ▸ rfl
  have hhigh' : (roundingOf m q).high = (4 * m + 2) * (if 0 ≤ q - 2 then Nat.pow 2 (q - 2).toNat else 1) := rfl
  have hclosed : (roundingOf m q).closed = decide (m % 2 = 0) := rfl
  rw [← hlow'] at hlow
  rw [← hhigh'] at hhigh
  push_cast [Nat.cast_sub hbelow] at hlow hhigh
  have hunit' : (0 : ℚ) < (roundingOf m q).unit := by exact_mod_cast hunit
  have hden' : (0 : ℚ) < ((if 0 ≤ e then 1 else Nat.pow 10 (-e).toNat : ℕ) : ℚ) := by exact_mod_cast hden
  rw [hclosed, ← hlow, ← hhigh, ← mul_div_assoc]
  generalize (if 0 ≤ e then Nat.pow 10 e.toNat else 1) = num at *
  generalize (if 0 ≤ e then 1 else Nat.pow 10 (-e).toNat) = den at *
  generalize roundingOf m q = r at *
  by_cases heven : m % 2 = 0
  · rw [decide_eq_true heven, if_pos rfl, if_pos heven, Bool.and_eq_true, decide_eq_true_iff, decide_eq_true_iff,
      div_le_div_iff₀ hunit' hden', div_le_div_iff₀ hden' hunit']
    exact_mod_cast Iff.rfl
  · rw [decide_eq_false heven, if_neg Bool.false_ne_true, if_neg heven, Bool.and_eq_true, decide_eq_true_iff,
      decide_eq_true_iff, div_lt_div_iff₀ hunit' hden', div_lt_div_iff₀ hden' hunit']
    exact_mod_cast Iff.rfl

/-- The multiple of `10 ^ e` at a number or just below it. -/
def Rounding.floor (r : Rounding) (e : ℤ) : Nat :=
  (if 0 ≤ e then r.mid else r.mid * Nat.pow 10 (-e).toNat) / (if 0 ≤ e then r.unit * Nat.pow 10 e.toNat else r.unit)

theorem floor_spec {r : Rounding} (hunit : 0 < r.unit) (e : ℤ) :
    r.floor e * (10 : ℚ) ^ e ≤ r.mid / r.unit ∧ (r.mid : ℚ) / r.unit < (r.floor e + 1) * 10 ^ e := by
  obtain ⟨hnum, hden, hpower⟩ := zpow_eq_div (b := 10) (by decide) e
  rw [Nat.cast_ofNat] at hpower
  have hfloor : r.floor e = r.mid * (if 0 ≤ e then 1 else Nat.pow 10 (-e).toNat) /
      (r.unit * (if 0 ≤ e then Nat.pow 10 e.toNat else 1)) := by
    unfold Rounding.floor
    split
    · rw [mul_one]
    · rw [mul_one]
  rw [hfloor, hpower]
  generalize (if 0 ≤ e then Nat.pow 10 e.toNat else 1) = num at *
  generalize (if 0 ≤ e then 1 else Nat.pow 10 (-e).toNat) = den at *
  have hunit' : (0 : ℚ) < r.unit := by exact_mod_cast hunit
  have hden' : (0 : ℚ) < den := by exact_mod_cast hden
  have hlow : r.mid * den / (r.unit * num) * (r.unit * num) ≤ r.mid * den := Nat.div_mul_le_self _ _
  have hhigh : r.mid * den < (r.mid * den / (r.unit * num) + 1) * (r.unit * num) := by
    rw [mul_comm _ (r.unit * num)]
    exact Nat.lt_mul_div_succ _ (Nat.mul_pos hunit hnum)
  generalize r.mid * den / (r.unit * num) = k at *
  constructor
  · rw [← mul_div_assoc, div_le_div_iff₀ hden' hunit']
    have : (k * num * r.unit : ℚ) ≤ r.mid * den := by
      rw [mul_assoc, mul_comm (num : ℚ)]
      exact_mod_cast hlow
    exact this
  · rw [← mul_div_assoc, div_lt_div_iff₀ hunit' hden']
    have : (r.mid * den : ℚ) < (k + 1) * num * r.unit := by
      rw [mul_assoc, mul_comm (num : ℚ)]
      exact_mod_cast hhigh
    exact this

/-- A hit of a grid rounds to the number and is one of the two multiples beside it. -/
theorem onGrid?_some {r : Rounding} {e : ℤ} {c : Nat} (h : r.onGrid? e = some c) :
    r.holds c e = true ∧ c ≤ r.floor e + 1 := by
  have hfloor : ∀ k, k = r.floor e → k ≤ r.floor e + 1 ∧ k + 1 ≤ r.floor e + 1 := fun k hk => by omega
  unfold Rounding.onGrid? at h
  extract_lets a b k rest at h
  obtain ⟨hk, hk'⟩ := hfloor k rfl
  clear_value k
  split at h
  · next hlower hupper =>
    have hc : c = k ∨ c = k + 1 := by
      have := Option.some.inj h
      split at this
      · exact .inl this.symm
      · split at this <;> omega
    rcases hc with rfl | rfl
    · exact ⟨hlower, hk⟩
    · exact ⟨hupper, hk'⟩
  · next hlower _ =>
    cases h
    exact ⟨hlower, hk⟩
  · next _ hupper =>
    cases h
    exact ⟨hupper, hk'⟩
  · cases h

theorem exists_onGrid? {r : Rounding} {e : ℤ} (h : r.holds (r.floor e) e = true ∨ r.holds (r.floor e + 1) e = true) :
    ∃ c, r.onGrid? e = some c := by
  unfold Rounding.onGrid?
  extract_lets a b k rest
  change r.holds k e = true ∨ r.holds (k + 1) e = true at h
  split
  · exact ⟨_, rfl⟩
  · exact ⟨_, rfl⟩
  · exact ⟨_, rfl⟩
  · next hlower hupper =>
    rw [hlower, hupper] at h
    exact absurd h (by decide)

/-- With seventeen digits one of the two multiples beside a number rounds to it. -/
theorem holds_floor (hcanonical : Canonical m q) (hm : m ≠ 0) {e : ℤ} (hfine : (10 : ℚ) ^ (e + 16) ≤ m * 2 ^ q) :
    (roundingOf m q).holds ((roundingOf m q).floor e) e = true ∨
      (roundingOf m q).holds ((roundingOf m q).floor e + 1) e = true := by
  obtain ⟨hlow, hhigh⟩ := floor_spec (roundingOf_ratio m 0 q).1 e
  rw [roundingOf_mid] at hlow hhigh
  rw [holds_iff hm, holds_iff hm, Nat.cast_add, Nat.cast_one]
  generalize ((roundingOf m q).floor e : ℚ) = k at *
  rw [zpow_add₀ (by norm_num), show (16 : ℤ) = ((16 : ℕ) : ℤ) from rfl, zpow_natCast] at hfine
  rw [Binary64.two_zpow_sub_two q] at hlow hhigh hfine
  have hpos : (0 : ℚ) < 2 ^ (q - 2) := by positivity
  have hbelow : (0 : ℚ) ≤ quartersBelow m q * 2 ^ (q - 2) := by positivity
  -- Otherwise all that rounds to the number lies between the two multiples.
  by_contra hnone
  rw [not_or] at hnone
  obtain ⟨hfloor, hnext⟩ := hnone
  have hgap : ((2 + quartersBelow m q : ℕ) : ℚ) * 2 ^ (q - 2) ≤ 10 ^ e := by
    unfold RoundsTo at hfloor hnext
    push_cast
    split at hfloor
    · next heven =>
      rw [if_pos heven] at hnext
      rw [not_and_or, not_le, not_le] at hfloor hnext
      rcases hfloor with hfloor | hfloor
      · rcases hnext with hnext | hnext <;> linarith
      · linarith
    · next hodd =>
      rw [if_neg hodd] at hnext
      rw [not_and_or, not_lt, not_lt] at hfloor hnext
      rcases hfloor with hfloor | hfloor
      · rcases hnext with hnext | hnext <;> linarith
      · linarith
  have hwide : ((2 + quartersBelow m q : ℕ) : ℚ) * 10 ^ 16 ≤ 4 * m := by
    by_contra hnarrow
    have := mul_lt_mul_of_pos_right (not_le.mp hnarrow) hpos
    linarith
  have hwide' : (2 + quartersBelow m q) * 10 ^ 16 ≤ 4 * m := by exact_mod_cast hwide
  have := hcanonical.lt
  unfold quartersBelow at hwide'
  split at hwide' <;> omega

theorem firstGrid_spec {r : Rounding} {point : ℤ} {ns : List Nat} (h : ∃ n ∈ ns, ∃ c, r.onGrid? (point - n) = some c) :
    ∃ n ∈ ns, ∃ c, r.onGrid? (point - n) = some c ∧ r.firstGrid point ns = (c, point - n) := by
  induction ns with
  | nil => exact absurd h (by simp)
  | cons n ns ih =>
    unfold Rounding.firstGrid
    split
    · next c hc => exact ⟨n, List.mem_cons_self, c, hc, rfl⟩
    · next hnone =>
      obtain ⟨k, hk, c, hc⟩ := h
      rcases List.mem_cons.mp hk with rfl | hk
      · rw [hnone] at hc
        cases hc
      · obtain ⟨k', hk', c', hc', hfirst⟩ := ih ⟨k, hk, c, hc⟩
        exact ⟨k', List.mem_cons_of_mem _ hk', c', hc', hfirst⟩

/-! ### The shortest digits -/

variable (hcanonical : Canonical m q) (hm : m ≠ 0)
include hcanonical hm

theorem point_spec :
    (10 : ℚ) ^ (pointOf (roundingOf m q).mid (roundingOf m q).unit - 1) ≤ m * 2 ^ q ∧
      (m : ℚ) * 2 ^ q < 10 ^ pointOf (roundingOf m q).mid (roundingOf m q).unit := by
  have hpow (i : Nat) : Nat.pow 2 i = 2 ^ i := rfl
  have hlt := hcanonical.lt
  have hsignificand : (4 * m).log2 < 55 := (Nat.log2_lt (by omega)).mpr (by omega)
  have hleast : -1074 ≤ q := hcanonical.least
  have hgreatest := hcanonical.greatest
  have hunit : (roundingOf m q).unit = if 0 ≤ q - 2 then 1 else Nat.pow 2 (-(q - 2)).toNat := rfl
  have hmid : (roundingOf m q).mid = 4 * m * (if 0 ≤ q - 2 then Nat.pow 2 (q - 2).toNat else 1) := rfl
  rw [← roundingOf_mid, hmid, hunit]
  split
  · have hne : 4 * m * Nat.pow 2 (q - 2).toNat ≠ 0 := Nat.mul_ne_zero (by omega) (Nat.two_pow_pos _).ne'
    have hlog : (4 * m * Nat.pow 2 (q - 2).toNat).log2 < 55 + (q - 2).toNat := by
      rw [Nat.log2_lt hne, hpow, Nat.pow_add]
      exact Nat.mul_lt_mul_of_pos_right (by omega) (Nat.two_pow_pos _)
    have hone : Nat.log2 1 = 0 := by decide
    exact pointOf_spec hne (by decide) (by omega) (by omega)
  · have hlog : (Nat.pow 2 (-(q - 2)).toNat).log2 ≤ 1100 := by
      rw [hpow, Nat.log2_two_pow]
      omega
    rw [mul_one]
    exact pointOf_spec (by omega) (Nat.two_pow_pos _).ne' (by omega) (by omega)

/-- At most seventeen digits are tried. -/
theorem exists_firstGrid : ∃ n : ℕ, n ≤ 17 ∧ ∃ c,
    (roundingOf m q).onGrid? (pointOf (roundingOf m q).mid (roundingOf m q).unit - n) = some c ∧
      (roundingOf m q).firstGrid (pointOf (roundingOf m q).mid (roundingOf m q).unit)
        ((List.range 17).map fun i : ℕ => i + 1) = (c, pointOf (roundingOf m q).mid (roundingOf m q).unit - n) := by
  have hseventeen : ∃ n ∈ (List.range 17).map fun i : ℕ => i + 1, ∃ c,
      (roundingOf m q).onGrid? (pointOf (roundingOf m q).mid (roundingOf m q).unit - n) = some c := by
    refine ⟨17, List.mem_map.mpr ⟨16, by simp, rfl⟩, exists_onGrid? (holds_floor hcanonical hm ?_)⟩
    rw [show pointOf (roundingOf m q).mid (roundingOf m q).unit - (17 : ℕ) + 16 =
      pointOf (roundingOf m q).mid (roundingOf m q).unit - 1 by push_cast; ring]
    exact (point_spec hcanonical hm).1
  obtain ⟨n, hn, c, hc, hfirst⟩ := firstGrid_spec hseventeen
  obtain ⟨i, hi, rfl⟩ := List.mem_map.mp hn
  exact ⟨i + 1, List.mem_range.mp hi, c, hc, hfirst⟩

/-- The multiple below a number has the digits that stand in front of its place. -/
theorem floor_lt (n : Nat) :
    (roundingOf m q).floor (pointOf (roundingOf m q).mid (roundingOf m q).unit - n) < 10 ^ n := by
  obtain ⟨hfloor, -⟩ := floor_spec (roundingOf_ratio m 0 q).1 (pointOf (roundingOf m q).mid (roundingOf m q).unit - n)
  rw [roundingOf_mid] at hfloor
  have hlt := lt_of_le_of_lt hfloor (point_spec hcanonical hm).2
  rw [zpow_sub₀ (by norm_num), zpow_natCast, ← mul_div_assoc, div_lt_iff₀ (by positivity),
    mul_comm, mul_lt_mul_iff_right₀ (by positivity)] at hlt
  exact_mod_cast hlt

omit hcanonical hm in
theorem ratio_trimmed (c : Nat) (e : ℤ) :
    Digits.ratio ⟨((digitsOf c).reverse.dropWhile (· = 0)).reverse, e + (digitsOf c).length⟩ = c * 10 ^ e := by
  obtain ⟨hlength, hdigits⟩ := ofDigits_dropLast_zeros (digitsOf c)
  rw [ofDigits_digitsOf] at hdigits
  rw [Digits.ratio]
  dsimp only
  generalize ((digitsOf c).reverse.dropWhile (· = 0)).reverse = ds at *
  generalize (digitsOf c).length = length at *
  rw [hdigits, Nat.cast_mul, Nat.cast_pow, Nat.cast_ofNat, mul_assoc, ← zpow_natCast, ← zpow_add₀ (by norm_num),
    Nat.cast_sub hlength]
  exact congrArg _ (congrArg _ (by ring))

/-- The shortest digits of a number round to it, and there are not many of them. -/
theorem shortest_spec : (shortest m q).Normal ∧ RoundsTo m q (shortest m q).ratio ∧ (shortest m q).digits.length ≤ 18 := by
  obtain ⟨n, hn, c, hc, hfirst⟩ := exists_firstGrid hcanonical hm
  obtain ⟨hholds, hle⟩ := onGrid?_some hc
  have hrounds := (holds_iff hm _ _).mp hholds
  have hshortest : shortest m q = ⟨((digitsOf c).reverse.dropWhile (· = 0)).reverse,
      pointOf (roundingOf m q).mid (roundingOf m q).unit - n + (digitsOf c).length⟩ := by
    unfold shortest
    rw [if_neg hm]
    dsimp only
    rw [hfirst]
  have hratio : (shortest m q).ratio = c * 10 ^ (pointOf (roundingOf m q).mid (roundingOf m q).unit - (n : ℤ)) := by
    rw [hshortest, ratio_trimmed]
  refine ⟨?_, by rwa [hratio], ?_⟩
  · refine (shortest_cases m q).resolve_right ?_
    rintro ⟨-, hempty⟩
    have hpos := hrounds.pos hm
    rw [← hratio, hempty] at hpos
    simp [Digits.ratio, Text.ofDigits] at hpos
  · have hsmall : c ≤ 10 ^ 17 := by
      have hfloor := floor_lt hcanonical hm n
      have hpow : 10 ^ n ≤ 10 ^ 17 := Nat.pow_le_pow_right (by decide) hn
      omega
    rw [hshortest]
    exact Nat.le_trans (ofDigits_dropLast_zeros (digitsOf c)).1 (length_digitsOf_le hsmall)

end

/-! ### Reading digits -/

section
variable {m : Nat} {q : ℤ} {v : ℚ} (hv : RoundsTo m q v)
include hv

theorem least_of_roundsTo (hm : m ≠ 0) (hcanonical : Canonical m q) : (10 : ℚ) ^ (-325 : ℤ) ≤ v := by
  have hm' : (1 : ℚ) ≤ m := by exact_mod_cast Nat.one_le_iff_ne_zero.mpr hm
  have hq : (2 : ℚ) ^ (-1074 : ℤ) ≤ 2 ^ q := zpow_le_zpow_right₀ (by norm_num) hcanonical.least
  calc (10 : ℚ) ^ (-325 : ℤ) ≤ 2 ^ (-1075 : ℤ) := (two_zpow_bounds (l := -1075) (by decide) (by decide)).1
    _ = 1 / 2 * 2 ^ (-1074 : ℤ) := by
        rw [show (-1074 : ℤ) = -1075 + 1 by rfl, zpow_add₀ (by norm_num)]
        ring
    _ ≤ (m - 1 / 2) * 2 ^ q := mul_le_mul (by linarith) hq (by positivity) (by linarith)
    _ ≤ v := hv.near.1

theorem le_of_roundsTo (hcanonical : Canonical m q) : v ≤ (10 : ℚ) ^ (311 : ℤ) := by
  have hq : (2 : ℚ) ^ (q + 53) ≤ 2 ^ (1024 : ℤ) :=
    zpow_le_zpow_right₀ (by norm_num) (by have := hcanonical.greatest; omega)
  have hten : (4 : ℚ) * 2 ^ (1024 : ℤ) ≤ 10 ^ (311 : ℤ) := (two_zpow_bounds (l := 1024) (by decide) (by decide)).2
  have hpos : (0 : ℚ) ≤ 2 ^ (1024 : ℤ) := by positivity
  calc v ≤ 2 ^ (q + 53) := (hv.lt hcanonical).le
    _ ≤ 2 ^ (1024 : ℤ) := hq
    _ ≤ 4 * 2 ^ (1024 : ℤ) := le_mul_of_one_le_left hpos (by norm_num)
    _ ≤ 10 ^ (311 : ℤ) := hten

end

theorem decimalValue_lt {cs : List Char} (h : Token.AreDigits cs) : decimalValue cs < 10 ^ cs.length := by
  have hdigit (c : Char) (hc : Text.isAsciiDigit c = true) : c.toNat - '0'.toNat < 10 := by
    have hle : c ≤ '9' := by
      simp only [Text.isAsciiDigit, Bool.and_eq_true, decide_eq_true_eq] at hc
      exact hc.2
    have : c.toNat ≤ '9'.toNat := hle
    have hnine : '9'.toNat = 57 := rfl
    have hzero : '0'.toNat = 48 := rfl
    omega
  have hlength : (cs.map fun c => c.toNat - '0'.toNat).length = cs.length := List.length_map _
  rw [← hlength]
  refine ofDigits_lt fun k hk => ?_
  obtain ⟨c, hc, rfl⟩ := List.mem_map.mp hk
  exact hdigit c (h c hc)

/-- Digits that round to a number are neither so few nor so many that their exponent alone decides. -/
theorem scale_bounds {m n : Nat} {q e : ℤ} (hcanonical : Canonical m q) (hm : m ≠ 0) (hn : n ≠ 0)
    (hlog : n.log2 < 133) (hv : RoundsTo m q (n * 10 ^ e)) :
    -400 ≤ (n.log2 : ℤ) * 30103 / 100000 + e ∧ (n.log2 : ℤ) * 30103 / 100000 + e ≤ 400 := by
  obtain ⟨hten, hten'⟩ := two_zpow_bounds (l := n.log2) (by omega) (by omega)
  obtain ⟨hlow, hhigh⟩ := Binary64.log2_bounds hn
  rw [Int.fdiv_eq_ediv_of_nonneg _ (by decide)] at hten hten'
  have hpos : (0 : ℚ) < 10 ^ e := by positivity
  have hmono {i j : ℤ} (h : (10 : ℚ) ^ i ≤ 10 ^ j) : i ≤ j := (zpow_le_zpow_iff_right₀ (by norm_num)).mp h
  generalize (n.log2 : ℤ) * 30103 / 100000 = t at *
  constructor
  · have hleast := least_of_roundsTo hv hm hcanonical
    have hmost : (n : ℚ) * 10 ^ e ≤ 10 ^ (t + e + 3) := by
      calc (n : ℚ) * 10 ^ e ≤ 10 ^ (t + 3) * 10 ^ e := by
            refine mul_le_mul_of_nonneg_right ?_ hpos.le
            rw [zpow_add₀ (by norm_num), zpow_one] at hhigh
            have : (0 : ℚ) < 2 ^ (n.log2 : ℤ) := by positivity
            linarith
        _ = 10 ^ (t + e + 3) := by
            rw [← zpow_add₀ (by norm_num)]
            exact congrArg _ (by ring)
    have := hmono (le_trans hleast hmost)
    omega
  · have hmost := le_of_roundsTo hv hcanonical
    have hleast : (10 : ℚ) ^ (t + e - 1) ≤ n * 10 ^ e := by
      calc (10 : ℚ) ^ (t + e - 1) = 10 ^ (t - 1) * 10 ^ e := by
            rw [← zpow_add₀ (by norm_num)]
            exact congrArg _ (by ring)
        _ ≤ n * 10 ^ e := mul_le_mul_of_nonneg_right (le_trans hten hlow) hpos.le
    have := hmono (le_trans hleast hmost)
    omega

/-- Digits that round to a number are read as the number. -/
theorem scientific_eq {x : Float} {negative : Bool} {m : Nat} {q : ℤ}
    (hdecode : Binary64.decode x = .finite negative m q) (hm : m ≠ 0) {n : Nat} (hn : n < 10 ^ 40) {e : ℤ}
    (hv : RoundsTo m q (n * 10 ^ e)) : scientific negative n e = x := by
  obtain ⟨hcanonical, -⟩ := Binary64.decode_finite hdecode
  have hn0 : n ≠ 0 := by
    rintro rfl
    have := hv.pos hm
    rw [Nat.cast_zero, zero_mul] at this
    exact lt_irrefl _ this
  have hlog : n.log2 < 133 := (Nat.log2_lt hn0).mpr (Nat.lt_of_lt_of_le hn (by norm_num))
  obtain ⟨hsmall, hlarge⟩ := scale_bounds hcanonical hm hn0 hlog hv
  unfold scientific
  dsimp only
  rw [if_neg (by simp [hn0, hsmall]), if_neg (not_lt.mpr hlarge)]
  split
  · next he =>
    obtain ⟨i, rfl⟩ := Int.eq_ofNat_of_zero_le he
    refine Binary64.ofRatio_eq hdecode hm Nat.one_pos ?_
    rw [zpow_natCast] at hv
    rw [Int.toNat_natCast, Nat.pow_eq, Nat.cast_one, div_one]
    push_cast
    exact hv
  · next he =>
    obtain ⟨i, hi⟩ : ∃ i : Nat, e = -i := ⟨(-e).toNat, by omega⟩
    rw [hi, zpow_neg, zpow_natCast, ← div_eq_mul_inv] at hv
    refine Binary64.ofRatio_eq hdecode hm (Nat.pow_pos (by decide)) ?_
    rw [hi, neg_neg, Int.toNat_natCast, Nat.pow_eq]
    push_cast
    exact hv

/-- What digits and an exponent write is a number. -/
theorem decode_scientific_ne_nan (negative : Bool) (n : Nat) (e : Int) :
    Binary64.decode (scientific negative n e) ≠ .nan := by
  unfold scientific
  dsimp only
  split
  · exact Binary64.decode_ofRatio_ne_nan negative 0 1
  · split
    · exact Binary64.decode_infinity_ne_nan negative
    · split
      · exact Binary64.decode_ofRatio_ne_nan negative _ 1
      · exact Binary64.decode_ofRatio_ne_nan negative n _

/-- Whatever number is printed, what is printed is read back as the number; only NaNs are not told apart. -/
theorem readsBack {x : Float} (hx : Binary64.decode x ≠ .nan) : ReadsBack x := by
  unfold ReadsBack
  cases hdecode : Binary64.decode x with
  | nan => exact absurd hdecode hx
  | infinite negative =>
    rw [Layout.text, hdecode, Binary64.decode_infinite hdecode]
    cases negative <;> rfl
  | finite negative m q =>
    have hnormal : (shortest m q).Normal := by
      by_cases hm : m = 0
      · refine (shortest_cases m q).resolve_right ?_
        rintro ⟨hne, -⟩
        exact hne hm
      · exact (shortest_spec (Binary64.decode_finite hdecode).1 hm).1
    obtain ⟨n, hnegative, -, hbody, hratio, hlength⟩ := isFractional_body hnormal negative
    have htext : (printed.text x).toList = n.text := by
      rw [Layout.text, hdecode]
      dsimp only
      rw [String.toList_append, hbody, Numeral.text, hnegative]
      cases negative <;> rfl
    rw [n.number?_text htext, Numeral.value, hnegative]
    refine congrArg some ?_
    by_cases hm : m = 0
    · subst hm
      have hzero : decimalValue (n.whole ++ n.fraction) = 0 := by
        have hshortest : (shortest 0 q).ratio = 0 := by simp [shortest, Digits.ratio, Text.ofDigits]
        rw [hshortest, Numeral.ratio] at hratio
        have hpos : (10 : ℚ) ^ (n.exponent?.getD 0 - n.fraction.length) ≠ 0 := by positivity
        exact_mod_cast (mul_eq_zero.mp hratio).resolve_right hpos
      rw [hzero, scientific, if_pos (by simp)]
      exact Binary64.ofRatio_zero hdecode
    · obtain ⟨-, hrounds, hshort⟩ := shortest_spec (Binary64.decode_finite hdecode).1 hm
      rw [← hratio, Numeral.ratio] at hrounds
      refine scientific_eq hdecode hm ?_ hrounds
      have hvalue := decimalValue_lt (List.forall_mem_append.mpr ⟨n.areWhole, n.areFraction⟩)
      refine Nat.lt_of_lt_of_le hvalue (Nat.pow_le_pow_right (by decide) ?_)
      rw [List.length_append]
      omega

end Decimal
end TypedImp
