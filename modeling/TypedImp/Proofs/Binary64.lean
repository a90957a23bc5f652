import Mathlib.Algebra.Order.Field.Power
import Mathlib.Algebra.Order.Field.Rat
import Mathlib.Tactic.FieldSimp
import Mathlib.Tactic.Linarith
import Mathlib.Tactic.NormNum
import Mathlib.Tactic.Positivity
import Mathlib.Tactic.Ring
import TypedImp.Binary64

/-! Rounding to the nearest binary number. Around every number `m · 2 ^ q` lie the rationals that round to it, and a
    ratio among them is rounded to its bits. -/

namespace TypedImp
namespace Binary64

/-! ### Bits as numbers hold them

Floating-point numbers are bits in which there is one NaN only, so that taking them apart and putting them together
gives the same bits. -/

section
open Float.Model Float.Model.UnpackedFloat

theorem toBitVec_ofBitVec (b : BitVec 1) : (Sign.ofBitVec b).toBitVec = b := by
  rcases BitVec.eq_zero_or_eq_one b with rfl | rfl <;> decide

theorem extractLsb_append (b : BitVec 64) :
    (b.extractLsb 63 63 ++ b.extractLsb 62 52 ++ b.extractLsb 51 0 : BitVec 64) = b := by
  refine BitVec.eq_of_getLsbD_eq fun i hi => ?_
  rw [BitVec.getLsbD_append, BitVec.getLsbD_append, BitVec.getLsbD_extractLsb, BitVec.getLsbD_extractLsb,
    BitVec.getLsbD_extractLsb]
  split
  · rw [decide_eq_true (by omega), Bool.true_and, Nat.zero_add]
  · split
    · rw [decide_eq_true (by omega), Bool.true_and]
      exact congrArg _ (by omega)
    · rw [decide_eq_true (by omega), Bool.true_and]
      exact congrArg _ (by omega)

theorem packComponents_unpack (b : BitVec Format.binary64.numBits) :
    packComponents Format.binary64 (Sign.ofBitVec (unpackSign b)) (unpackExponent b) (unpackMantissa b) = b := by
  unfold packComponents
  rw [toBitVec_ofBitVec]
  exact extractLsb_append b

theorem toNat_one_append {w : Nat} (m : BitVec w) : (1#1 ++ m).toNat = 2 ^ w + m.toNat := by
  rw [BitVec.toNat_append, ← Nat.shiftLeft_add_eq_or_of_lt m.isLt, Nat.shiftLeft_eq]
  simp

theorem ofNat_one_append {w : Nat} (m : BitVec w) : BitVec.ofNat w (1#1 ++ m).toNat = m := by
  apply BitVec.eq_of_toNat_eq
  rw [toNat_one_append, BitVec.toNat_ofNat, Nat.add_mod_left, Nat.mod_eq_of_lt m.isLt]

theorem log2_one_append {w : Nat} (m : BitVec w) : (1#1 ++ m).toNat.log2 = w := by
  have hm := m.isLt
  rw [toNat_one_append]
  refine (Nat.log2_eq_iff (by omega)).mpr ⟨by omega, ?_⟩
  rw [Nat.pow_succ]
  omega

theorem pack_unpack {b : BitVec Format.binary64.numBits} (h : Format.binary64.Valid b) :
    UnpackedFloat.pack Format.binary64 (UnpackedFloat.unpack Format.binary64 b) = b := by
  have hcanonical := h.eq_packedNaN
  unfold UnpackedFloat.unpack
  extract_lets m e i s sign
  have hparts : packComponents Format.binary64 sign e m = b := packComponents_unpack b
  have hm : m.toNat < 2 ^ 52 := m.isLt
  have hexponent : i = e.toNat - 1075 := rfl
  by_cases htop : e = -BitVec.ofNat _ 1
  · rw [if_pos htop]
    by_cases hzero : m = BitVec.ofNat _ 0
    · rw [if_pos hzero, ← hparts, htop, hzero]
      rfl
    · rw [if_neg hzero]
      exact (hcanonical htop hzero).symm
  · rw [if_neg htop]
    have hbelow : e.toNat ≠ 2047 := fun h => htop (BitVec.eq_of_toNat_eq h)
    have he : e.toNat < 2048 := e.isLt
    by_cases hleast : e = BitVec.ofNat _ 0
    · rw [if_pos hleast]
      by_cases hzero : m = BitVec.ofNat _ 0
      · rw [dif_pos hzero, ← hparts, hleast, hzero]
        rfl
      · rw [dif_neg hzero]
        have hlog : m.toNat.log2 < 52 := (Nat.log2_lt fun h => hzero (BitVec.eq_of_toNat_eq h)).mpr hm
        have hfew : m.toNat.log2 + 1 ≠ Format.binary64.mantissaBits := show m.toNat.log2 + 1 ≠ 53 by omega
        have hleast' : i = -1075 := by rw [hexponent, hleast]; rfl
        unfold UnpackedFloat.pack
        dsimp only
        rw [if_neg (by rw [hleast']; decide), if_neg hfew, ← hparts, hleast,
          BitVec.ofNat_toNat]
        rfl
    · rw [if_neg hleast]
      have hbiased : (i + Format.binary64.exponentBias + Format.binary64.mantissaBitsWithoutImplicit).toNat = e.toNat := by
        show (i + 1023 + 52).toNat = e.toNat
        omega
      unfold UnpackedFloat.pack
      dsimp only
      rw [hbiased, if_neg (show ¬2 ^ 11 ≤ e.toNat + 1 by omega), if_pos (by rw [log2_one_append]; rfl), ofNat_one_append,
        BitVec.ofNat_toNat, ← hparts]
      rfl

theorem ofBits_toBits (x : Float) : Float.ofBits x.toBits = x := by
  have hbits : (Float.Model.ofBits x.toModel.toBits).toBits = x.toModel.toBits :=
    congrArg UInt64.ofBitVec (pack_unpack x.toModel.valid)
  cases x with
  | ofModel x =>
    cases x with
    | mk bits valid => exact congrArg Float.ofModel (Float.Model.mk.injEq .. ▸ hbits)

/-- Bits up to those of infinity belong to no NaN, and a number keeps them as they are. -/
theorem toBits_ofBits {b : UInt64} (h : b.toNat % signBit ≤ infinityBits) : (Float.ofBits b).toBits = b := by
  have hsign : signBit = 2 ^ 63 := rfl
  have hinfinity : infinityBits = 2047 * 2 ^ 52 := rfl
  have hvalid : Format.binary64.Valid b.toBitVec := by
    refine ⟨fun hexponent hmantissa => absurd ?_ hmantissa⟩
    have hexponent : b.toNat >>> 52 % 2 ^ 11 = 2047 := by
      have := congrArg BitVec.toNat hexponent
      simpa [unpackExponent, BitVec.extractLsb] using this
    apply BitVec.eq_of_toNat_eq
    show b.toNat >>> 0 % 2 ^ 52 = 0
    rw [hsign, hinfinity] at h
    rw [Nat.shiftRight_eq_div_pow] at hexponent
    rw [Nat.shiftRight_zero]
    omega
  exact congrArg UInt64.ofBitVec (pack_unpack hvalid)

end

/-! ### Decoded numbers -/

/-- The significands and exponents that bits are decoded to: 53 bits, or fewer at the least exponent. -/
structure Canonical (m : Nat) (q : Int) : Prop where
  lt : m < 2 ^ 53
  least : minExponent ≤ q
  greatest : q ≤ 971
  full : q = minExponent ∨ 2 ^ 52 ≤ m

/-- The bits of `m · 2 ^ q` behind the sign. -/
def magnitudeBits (m : Nat) (q : Int) : Nat := (q - minExponent).toNat * 2 ^ 52 + m

theorem Canonical.magnitudeBits_lt {m : Nat} {q : Int} (h : Canonical m q) : magnitudeBits m q < infinityBits := by
  have hinfinity : infinityBits = 2047 * 2 ^ 52 := rfl
  have hlt := h.lt
  have hq : (q - minExponent).toNat ≤ 2045 := by
    have := h.greatest
    unfold minExponent
    omega
  unfold magnitudeBits
  omega

/-- The bits of a number from what they are decoded to. -/
theorem eq_ofBits {x : Float} {negative : Bool} {body : Nat} (hnegative : negative = decide (signBit ≤ x.toBits.toNat))
    (hbody : x.toBits.toNat % signBit = body) :
    x = Float.ofBits (UInt64.ofNat ((if negative then signBit else 0) + body)) := by
  have hbits : (if negative then signBit else 0) + body = x.toBits.toNat := by
    have hlt : x.toBits.toNat < 2 ^ 64 := x.toBits.toNat_lt
    have hsign : signBit = 2 ^ 63 := rfl
    rw [hsign] at hbody ⊢
    rw [hnegative, hsign]
    simp only [decide_eq_true_eq]
    split <;> omega
  rw [hbits, UInt64.ofNat_toNat, ofBits_toBits]

theorem decode_finite {x : Float} {negative : Bool} {m : Nat} {q : Int} (h : decode x = .finite negative m q) :
    Canonical m q ∧ x = Float.ofBits (UInt64.ofNat ((if negative then signBit else 0) + magnitudeBits m q)) := by
  have hpow : Nat.pow 2 52 = 2 ^ 52 := rfl
  have hsign : signBit = 2 ^ 63 := rfl
  have hlt : x.toBits.toNat % signBit < signBit := Nat.mod_lt _ (by decide)
  unfold decode at h
  rw [hpow] at h
  extract_lets bits sign body biased fraction at h
  have hbiased : biased = body / 2 ^ 52 := rfl
  have hfraction : fraction = body % 2 ^ 52 := rfl
  have hbody : body < 2 ^ 63 := hlt
  split at h
  · split at h <;> cases h
  · next hfinite =>
    split at h
    · next hzero =>
      injection h with hnegative hm hq
      subst hnegative hm hq
      refine ⟨⟨by omega, Int.le_refl _, by decide, .inl rfl⟩, eq_ofBits rfl ?_⟩
      show body = magnitudeBits fraction minExponent
      unfold magnitudeBits
      omega
    · next hnormal =>
      injection h with hnegative hm hq
      subst hnegative hm hq
      have hleast : (biased : Int) + minExponent - 1 - minExponent = biased - 1 := by omega
      refine ⟨⟨by omega, by omega, by unfold minExponent; omega, .inr (by omega)⟩, eq_ofBits rfl ?_⟩
      show body = magnitudeBits _ _
      unfold magnitudeBits
      omega

theorem decode_infinite {x : Float} {negative : Bool} (h : decode x = .infinite negative) : x = infinity negative := by
  have hpow : Nat.pow 2 52 = 2 ^ 52 := rfl
  have hinfinity : infinityBits = 2047 * 2 ^ 52 := rfl
  unfold decode at h
  rw [hpow] at h
  extract_lets bits sign body biased fraction at h
  have hbiased : biased = body / 2 ^ 52 := rfl
  have hfraction : fraction = body % 2 ^ 52 := rfl
  split at h
  · split at h
    · injection h with hnegative
      subst hnegative
      refine eq_ofBits rfl ?_
      show body = infinityBits
      omega
    · cases h
  · split at h <;> cases h

/-- A sign and bits up to those of infinity make no NaN. -/
theorem decode_ofBits_ne_nan (negative : Bool) {body : Nat} (h : body ≤ infinityBits) :
    decode (Float.ofBits (UInt64.ofNat ((if negative then signBit else 0) + body))) ≠ .nan := by
  have hsign : signBit = 2 ^ 63 := rfl
  have hinfinity : infinityBits = 2047 * 2 ^ 52 := rfl
  have hlt : body < 2 ^ 63 := by omega
  have hbits : (if negative then signBit else 0) + body < 2 ^ 64 := by
    rw [hsign]
    split <;> omega
  have hbody : ((if negative then signBit else 0) + body) % signBit = body := by
    rw [hsign]
    split <;> omega
  have hnat : (UInt64.ofNat ((if negative then signBit else 0) + body)).toNat =
      (if negative then signBit else 0) + body := UInt64.toNat_ofNat_of_lt hbits
  unfold decode
  rw [toBits_ofBits (by rw [hnat, hbody]; exact h), hnat]
  dsimp only
  rw [hbody]
  intro hnan
  split at hnan
  · next hbiased =>
    split at hnan
    · cases hnan
    · next hfraction =>
      have hpow : Nat.pow 2 52 = 2 ^ 52 := rfl
      rw [hpow] at hbiased hfraction
      omega
  · split at hnan <;> cases hnan

theorem decode_infinity_ne_nan (negative : Bool) : decode (infinity negative) ≠ .nan :=
  decode_ofBits_ne_nan negative (Nat.le_refl _)

theorem nearestBits_le (n d : Nat) : nearestBits n d ≤ infinityBits := by
  unfold nearestBits
  split
  · exact Nat.zero_le _
  · extract_lets q
    obtain ⟨a, b⟩ := scaled n d q
    dsimp only
    exact Nat.min_le_left _ _

/-- What is nearest to a ratio is a number. -/
theorem decode_ofRatio_ne_nan (negative : Bool) (n d : Nat) : decode (ofRatio negative n d) ≠ .nan :=
  decode_ofBits_ne_nan negative (nearestBits_le n d)

/-! ### Rounding -/

/-- How many quarters of `2 ^ q` below `m · 2 ^ q` numbers still round to it. The gap below a power of two is half the
    gap above it, except at the least exponent. -/
def quartersBelow (m : Nat) (q : Int) : Nat := if m = 2 ^ 52 ∧ minExponent < q then 1 else 2

/-- The rationals that round to `m · 2 ^ q`, a tie to the even one. -/
def RoundsTo (m : Nat) (q : Int) (v : ℚ) : Prop :=
  if m % 2 = 0 then (4 * m - quartersBelow m q) * 2 ^ (q - 2) ≤ v ∧ v ≤ (4 * m + 2) * 2 ^ (q - 2)
  else (4 * m - quartersBelow m q) * 2 ^ (q - 2) < v ∧ v < (4 * m + 2) * 2 ^ (q - 2)

theorem two_zpow_sub_two (q : Int) : (2 : ℚ) ^ q = 4 * 2 ^ (q - 2) := by
  rw [zpow_sub₀ (by norm_num)]
  norm_num
  ring

theorem quartersBelow_le (m : Nat) (q : Int) : (quartersBelow m q : ℚ) ≤ 2 := by
  unfold quartersBelow
  split <;> norm_num

/-- What rounds to a number is at most half a unit away from it, and less than that if the number is odd. -/
theorem RoundsTo.near {m : Nat} {q : Int} {v : ℚ} (h : RoundsTo m q v) :
    (m - 1 / 2) * 2 ^ q ≤ v ∧ v ≤ (m + 1 / 2) * 2 ^ q ∧
      (m % 2 ≠ 0 → (m - 1 / 2) * 2 ^ q < v ∧ v < (m + 1 / 2) * 2 ^ q) := by
  have hpos : (0 : ℚ) < 2 ^ (q - 2) := by positivity
  have hbelow := mul_le_mul_of_nonneg_right (quartersBelow_le m q) hpos.le
  rw [two_zpow_sub_two q]
  unfold RoundsTo at h
  split at h
  · next heven =>
    obtain ⟨hlow, hhigh⟩ := h
    exact ⟨by linarith, by linarith, fun hodd => absurd heven hodd⟩
  · obtain ⟨hlow, hhigh⟩ := h
    exact ⟨by linarith, by linarith, fun _ => ⟨by linarith, by linarith⟩⟩

theorem scaled_ratio (n : Nat) {d : Nat} (hd : 0 < d) (q : Int) :
    0 < (scaled n d q).2 ∧ ((scaled n d q).1 : ℚ) / (scaled n d q).2 = n / d / 2 ^ q := by
  have hpow (i : Nat) : Nat.pow 2 i = 2 ^ i := rfl
  unfold scaled
  split
  · next hq =>
    obtain ⟨i, rfl⟩ := Int.eq_ofNat_of_zero_le hq
    refine ⟨Nat.mul_pos hd (Nat.two_pow_pos _), ?_⟩
    rw [hpow, Int.toNat_natCast, zpow_natCast, div_div]
    push_cast
    rfl
  · next hq =>
    obtain ⟨i, hi⟩ : ∃ i : Nat, q = -i := ⟨(-q).toNat, by omega⟩
    refine ⟨hd, ?_⟩
    rw [hpow, hi, neg_neg, Int.toNat_natCast, zpow_neg, zpow_natCast]
    push_cast
    field_simp

theorem log2_bounds {n : Nat} (hn : n ≠ 0) : (2 : ℚ) ^ (n.log2 : ℤ) ≤ n ∧ (n : ℚ) < 2 ^ (n.log2 + 1 : ℤ) := by
  have hlow := Nat.log2_self_le hn
  have hhigh := Nat.lt_log2_self (n := n)
  constructor
  · rw [zpow_natCast]
    exact_mod_cast hlow
  · rw [show ((n.log2 : ℤ) + 1) = ((n.log2 + 1 : ℕ) : ℤ) by push_cast; rfl, zpow_natCast]
    exact_mod_cast hhigh

/-- The binary logarithms of a numerator and a denominator say where the ratio lies. -/
theorem ratio_bounds {n d : Nat} (hn : n ≠ 0) (hd : d ≠ 0) :
    (2 : ℚ) ^ ((n.log2 : ℤ) - d.log2 - 1) < n / d ∧ (n : ℚ) / d < 2 ^ ((n.log2 : ℤ) - d.log2 + 1) := by
  obtain ⟨hnlow, hnhigh⟩ := log2_bounds hn
  obtain ⟨hdlow, hdhigh⟩ := log2_bounds hd
  have hdpos : (0 : ℚ) < d := by exact_mod_cast Nat.pos_of_ne_zero hd
  constructor
  · rw [lt_div_iff₀ hdpos]
    calc (2 : ℚ) ^ ((n.log2 : ℤ) - d.log2 - 1) * d < 2 ^ ((n.log2 : ℤ) - d.log2 - 1) * 2 ^ (d.log2 + 1 : ℤ) :=
          mul_lt_mul_of_pos_left hdhigh (by positivity)
      _ = 2 ^ (n.log2 : ℤ) := by
          rw [← zpow_add₀ (by norm_num)]
          exact congrArg _ (by ring)
      _ ≤ n := hnlow
  · rw [div_lt_iff₀ hdpos]
    calc (n : ℚ) < 2 ^ (n.log2 + 1 : ℤ) := hnhigh
      _ = 2 ^ ((n.log2 : ℤ) - d.log2 + 1) * 2 ^ (d.log2 : ℤ) := by
          rw [← zpow_add₀ (by norm_num)]
          exact congrArg _ (by ring)
      _ ≤ 2 ^ ((n.log2 : ℤ) - d.log2 + 1) * d := mul_le_mul_of_nonneg_left hdlow (by positivity)

/-- The exponent for a ratio leaves at most 53 bits, and not fewer unless it is the least one. -/
theorem exponentFor_spec {n d : Nat} (hn : n ≠ 0) (hd : 0 < d) :
    minExponent ≤ exponentFor n d ∧ (n : ℚ) / d < 2 ^ (exponentFor n d + 53) ∧
      (exponentFor n d = minExponent ∨ (2 : ℚ) ^ (exponentFor n d + 52) ≤ n / d) := by
  obtain ⟨hlow, hhigh⟩ := ratio_bounds hn hd.ne'
  have hpow : Nat.pow 2 53 = 2 ^ 53 := rfl
  unfold exponentFor
  extract_lets q
  have hmax : q = max minExponent ((n.log2 : Int) - d.log2 - 53) := rfl
  obtain ⟨hb, hratio⟩ := scaled_ratio n hd q
  have hmono {i j : ℤ} (h : i ≤ j) : (2 : ℚ) ^ i ≤ 2 ^ j := zpow_le_zpow_right₀ (by norm_num) h
  have hbelow : (n : ℚ) / d < 2 ^ (q + 54) := lt_of_lt_of_le hhigh (hmono (by omega))
  -- The comparison asks whether the ratio needs a bit more.
  have hmore : (scaled n d q).2 * 2 ^ 53 ≤ (scaled n d q).1 ↔ (2 : ℚ) ^ (q + 53) ≤ n / d := by
    rw [zpow_add₀ (by norm_num), mul_comm (2 ^ q : ℚ), ← le_div_iff₀ (by positivity), ← hratio,
      le_div_iff₀ (by exact_mod_cast hb), show (53 : ℤ) = ((53 : ℕ) : ℤ) from rfl, zpow_natCast, mul_comm]
    exact_mod_cast Iff.rfl
  rw [hpow]
  dsimp only
  split
  · next h =>
    have hle := hmore.mp h
    refine ⟨by omega, by rwa [show q + 1 + 53 = q + 54 by ring], .inr ?_⟩
    rwa [show q + 1 + 52 = q + 53 by ring]
  · next h =>
    refine ⟨by omega, not_le.mp (mt hmore.mpr h), ?_⟩
    rcases Int.le_total ((n.log2 : Int) - d.log2 - 53) minExponent with hle | hle
    · exact .inl (by omega)
    · exact .inr (le_of_lt (lt_of_le_of_lt (hmono (by omega)) hlow))

/-- A quotient rounds to an integer that it is at most a half away from, in a tie only to an even one. -/
theorem roundDiv_of_twice {a b c : Nat} (hb : 0 < b) (hlow : 2 * (b * c) ≤ 2 * a + b) (hhigh : 2 * a ≤ 2 * (b * c) + b)
    (hodd : c % 2 ≠ 0 → 2 * (b * c) < 2 * a + b ∧ 2 * a < 2 * (b * c) + b) : roundDiv a b = c := by
  have hdiv : b * (a / b) + a % b = a := Nat.div_add_mod a b
  have hmod : a % b < b := Nat.mod_lt a hb
  unfold roundDiv
  extract_lets k r
  have hk : k = a / b := rfl
  have hr : r = a % b := rfl
  rw [← hk, ← hr] at hdiv
  rw [← hr] at hmod
  -- The integer is the quotient or the one above it.
  have hc : c = k ∨ c = k + 1 := by
    rcases Nat.lt_trichotomy c k with h | h | h
    · exfalso
      have : b * (c + 1) ≤ b * k := Nat.mul_le_mul_left b h
      rw [Nat.mul_succ] at this
      omega
    · exact .inl h
    · refine .inr ?_
      by_contra hne
      have : b * (k + 2) ≤ b * c := Nat.mul_le_mul_left b (by omega)
      rw [Nat.mul_add] at this
      omega
  rcases hc with rfl | rfl
  · split
    · rfl
    · split
      · omega
      · have : ¬k % 2 ≠ 0 := fun h => by have := hodd h; omega
        omega
  · rw [Nat.mul_add, Nat.mul_one] at hlow hhigh hodd
    split
    · omega
    · split
      · rfl
      · have : ¬(k + 1) % 2 ≠ 0 := fun h => by have := hodd h; omega
        omega

theorem roundDiv_eq {a b c : Nat} (hb : 0 < b) (hlow : (c : ℚ) - 1 / 2 ≤ a / b) (hhigh : (a : ℚ) / b ≤ c + 1 / 2)
    (hodd : c % 2 ≠ 0 → (c : ℚ) - 1 / 2 < a / b ∧ (a : ℚ) / b < c + 1 / 2) : roundDiv a b = c := by
  have hbpos : (0 : ℚ) < b := by exact_mod_cast hb
  refine roundDiv_of_twice hb ?_ ?_ fun h => ?_
  · rw [le_div_iff₀ hbpos] at hlow
    have : (2 * (b * c) : ℚ) ≤ 2 * a + b := by linarith
    exact_mod_cast this
  · rw [div_le_iff₀ hbpos] at hhigh
    have : (2 * a : ℚ) ≤ 2 * (b * c) + b := by linarith
    exact_mod_cast this
  · obtain ⟨hl, hh⟩ := hodd h
    rw [lt_div_iff₀ hbpos] at hl
    rw [div_lt_iff₀ hbpos] at hh
    have hl' : (2 * (b * c) : ℚ) < 2 * a + b := by linarith
    have hh' : (2 * a : ℚ) < 2 * (b * c) + b := by linarith
    exact ⟨by exact_mod_cast hl', by exact_mod_cast hh'⟩

section
variable {m : Nat} {q : Int} {v : ℚ} (hv : RoundsTo m q v)
include hv

theorem RoundsTo.pos (hm : m ≠ 0) : 0 < v := by
  have hm' : (1 : ℚ) ≤ m := by exact_mod_cast Nat.one_le_iff_ne_zero.mpr hm
  refine lt_of_lt_of_le ?_ hv.near.1
  have : (0 : ℚ) < m - 1 / 2 := by linarith
  positivity

variable (hcanonical : Canonical m q)
include hcanonical

theorem RoundsTo.lt : v < 2 ^ (q + 53) := by
  obtain ⟨-, hhigh, hodd⟩ := hv.near
  have hlt := hcanonical.lt
  have hpos : (0 : ℚ) < 2 ^ q := by positivity
  rw [zpow_add₀ (by norm_num), mul_comm]
  -- The greatest significand is odd, so that the tie above it does not round to it.
  rcases Nat.lt_or_ge m (2 ^ 53 - 1) with h | h
  · have hm' : (m : ℚ) + 1 ≤ 2 ^ 53 - 1 := by
      have : m + 2 ≤ 2 ^ 53 := by omega
      have : (m : ℚ) + 2 ≤ 2 ^ 53 := by exact_mod_cast this
      linarith
    refine lt_of_le_of_lt hhigh (mul_lt_mul_of_pos_right ?_ hpos)
    rw [show (53 : ℤ) = ((53 : ℕ) : ℤ) from rfl, zpow_natCast]
    linarith
  · have hm' : m = 2 ^ 53 - 1 := by omega
    have hm'' : (m : ℚ) = 2 ^ 53 - 1 := by
      rw [hm']
      norm_num
    refine lt_trans (hodd (by rw [hm']; decide)).2 (mul_lt_mul_of_pos_right ?_ hpos)
    rw [show (53 : ℤ) = ((53 : ℕ) : ℤ) from rfl, zpow_natCast, hm'']
    norm_num

/-- What rounds to a number has the exponent of the number, or lies below a power of two with the exponent below. -/
theorem RoundsTo.exponent_cases {e : Int} (hleast : minExponent ≤ e) (hlt : v < 2 ^ (e + 53))
    (hfull : e = minExponent ∨ 2 ^ (e + 52) ≤ v) :
    e = q ∨ e = q - 1 ∧ m = 2 ^ 52 ∧ (2 ^ 53 - 1 / 2) * 2 ^ e ≤ v := by
  have hmono {i j : ℤ} (h : (2 : ℚ) ^ i < 2 ^ j) : i < j := (zpow_lt_zpow_iff_right₀ (by norm_num)).mp h
  have hle : e ≤ q := by
    rcases hfull with rfl | hfull
    · exact hcanonical.least
    · have := hmono (lt_of_le_of_lt hfull (hv.lt hcanonical))
      omega
  rcases Int.lt_or_eq_of_le hle with hbelow | rfl
  · right
    have hq : minExponent < q := by omega
    have hpos : (0 : ℚ) < 2 ^ (q - 2) := by positivity
    have hnormal : 2 ^ 52 ≤ m := hcanonical.full.resolve_left (by omega)
    have hupper : v < 2 ^ 54 * 2 ^ (q - 2) := by
      refine lt_of_lt_of_le hlt ?_
      rw [show (2 : ℚ) ^ 54 = 2 ^ (54 : ℤ) from (zpow_natCast 2 54).symm, ← zpow_add₀ (by norm_num)]
      exact zpow_le_zpow_right₀ (by norm_num) (by omega)
    -- A significand above the least one leaves no room below the power of two.
    have hm52 : m = 2 ^ 52 := by
      by_contra hne
      have hm' : (2 ^ 52 + 1 : ℚ) ≤ m := by exact_mod_cast Nat.lt_of_le_of_ne hnormal (Ne.symm hne)
      have hlow := hv.near.1
      rw [two_zpow_sub_two] at hlow
      have := mul_le_mul_of_nonneg_right hm' hpos.le
      linarith
    have hlow : (2 ^ 54 - 1) * 2 ^ (q - 2) ≤ v := by
      have hquarter : quartersBelow m q = 1 := if_pos ⟨hm52, hq⟩
      have hm' : (m : ℚ) = 2 ^ 52 := by
        rw [hm52]
        norm_num
      unfold RoundsTo at hv
      rw [if_pos (by rw [hm52]; decide), hquarter, hm'] at hv
      refine le_trans (le_of_eq ?_) hv.1
      norm_num
    have he : e = q - 1 := by
      by_contra hne
      have : (2 : ℚ) ^ (e + 53) ≤ 2 ^ 53 * 2 ^ (q - 2) := by
        rw [show (2 : ℚ) ^ 53 = 2 ^ (53 : ℤ) from (zpow_natCast 2 53).symm, ← zpow_add₀ (by norm_num)]
        exact zpow_le_zpow_right₀ (by norm_num) (by omega)
      linarith
    refine ⟨he, hm52, le_trans (le_of_eq ?_) hlow⟩
    rw [he, show q - 1 = (q - 2) + 1 by ring, zpow_add₀ (by norm_num)]
    ring
  · exact .inl rfl

/-- A ratio that rounds to a number has the number's bits. -/
theorem nearestBits_eq (hm : m ≠ 0) {n d : Nat} (hd : 0 < d) (hratio : (n : ℚ) / d = v) :
    nearestBits n d = magnitudeBits m q := by
  have hn : n ≠ 0 := by
    rintro rfl
    have := hv.pos hm
    rw [← hratio, Nat.cast_zero, zero_div] at this
    exact lt_irrefl _ this
  unfold nearestBits
  rw [if_neg hn]
  extract_lets e
  obtain ⟨hleast, hlt, hfull⟩ : minExponent ≤ e ∧ (n : ℚ) / d < 2 ^ (e + 53) ∧
    (e = minExponent ∨ (2 : ℚ) ^ (e + 52) ≤ n / d) := exponentFor_spec hn hd
  clear_value e
  obtain ⟨hb, hscaled⟩ := scaled_ratio n hd e
  generalize scaled n d e = parts at *
  obtain ⟨a, b⟩ := parts
  rw [hratio] at hscaled hlt hfull
  have hpos : (0 : ℚ) < 2 ^ e := by positivity
  have hbits := hcanonical.magnitudeBits_lt
  have hpow : Nat.pow 2 52 = 2 ^ 52 := rfl
  dsimp only at hb hscaled ⊢
  rw [hpow]
  rcases hv.exponent_cases hcanonical hleast hlt hfull with rfl | ⟨he, hm52, hlow⟩
  · obtain ⟨hlow, hhigh, hodd⟩ := hv.near
    have hround : roundDiv a b = m := by
      refine roundDiv_eq hb ?_ ?_ fun h => ?_
      · rwa [hscaled, le_div_iff₀ hpos]
      · rwa [hscaled, div_le_iff₀ hpos]
      · rw [hscaled, lt_div_iff₀ hpos, div_lt_iff₀ hpos]
        exact hodd h
    rw [hround]
    exact Nat.min_eq_right (Nat.le_of_lt hbits)
  · have hround : roundDiv a b = 2 ^ 53 := by
      refine roundDiv_eq hb ?_ ?_ fun h => absurd (by norm_num) h
      · rw [hscaled, le_div_iff₀ hpos]
        push_cast
        exact hlow
      · rw [hscaled, div_le_iff₀ hpos]
        rw [zpow_add₀ (by norm_num), show (53 : ℤ) = ((53 : ℕ) : ℤ) from rfl, zpow_natCast] at hlt
        push_cast
        linarith
    have hsum : (e - minExponent).toNat * 2 ^ 52 + 2 ^ 53 = magnitudeBits m q := by
      unfold magnitudeBits
      omega
    rw [hround, hsum]
    exact Nat.min_eq_right (Nat.le_of_lt hbits)

end

/-- A ratio that rounds to a finite number is read as the number. -/
theorem ofRatio_eq {x : Float} {negative : Bool} {m : Nat} {q : Int} (hdecode : decode x = .finite negative m q)
    (hm : m ≠ 0) {n d : Nat} (hd : 0 < d) (hv : RoundsTo m q (n / d)) : ofRatio negative n d = x := by
  obtain ⟨hcanonical, hx⟩ := decode_finite hdecode
  rw [ofRatio, nearestBits_eq hv hcanonical hm hd rfl]
  exact hx.symm

theorem ofRatio_zero {x : Float} {negative : Bool} {q : Int} (hdecode : decode x = .finite negative 0 q) :
    ofRatio negative 0 1 = x := by
  obtain ⟨hcanonical, hx⟩ := decode_finite hdecode
  have hq : q = minExponent := hcanonical.full.resolve_right (by decide)
  rw [hx, hq]
  rfl

end Binary64
end TypedImp
