import Mathlib.Algebra.Order.Field.Rat
import Mathlib.Tactic.Ring
import TypedImp.Decimal.Layout
import TypedImp.Proofs.Decimal.Numeral
import TypedImp.Proofs.Decimal.Shortest
import TypedImp.Proofs.Token.Digits

/-! The texts of binary numbers. A finite number is written as a numeral with a fraction or an exponent, so that it is
    never mistaken for an integer. -/

namespace TypedImp
open Token (AreDigits decimalValue)

namespace Decimal

/-- Reading what is printed of a number gives the number itself. -/
def ReadsBack (x : Float) : Prop := number? (printed.text x) = some x

/-! ### Rows of digits -/

theorem isAsciiDigit_digitChar : ∀ k < 10, Text.isAsciiDigit k.digitChar = true := by decide

theorem areDigits_digitChars {ds : List Nat} (h : ∀ k ∈ ds, k < 10) : AreDigits (ds.map Nat.digitChar) := by
  intro c hc
  obtain ⟨k, hk, rfl⟩ := List.mem_map.mp hc
  exact isAsciiDigit_digitChar k (h k hk)

theorem toList_digitText (ds : List Nat) : (digitText ds).toList = ds.map Nat.digitChar := String.toList_ofList

theorem digitChar_ne_zero : ∀ k < 10, k ≠ 0 → k.digitChar ≠ '0' := by decide

theorem digitText_isEmpty (ds : List Nat) : (digitText ds).isEmpty = ds.isEmpty := by
  rw [Bool.eq_iff_iff, String.isEmpty_iff, List.isEmpty_iff, ← String.toList_eq_nil_iff, toList_digitText,
    List.map_eq_nil_iff]

/-! ### Numerals -/

/-- The digits of an exponent, filled up with zeros. -/
def exponentDigits (e : Int) : List Char :=
  List.replicate (printed.exponentDigits - (toString e.natAbs).length) '0' ++ Nat.toDigits 10 e.natAbs

theorem areDigits_exponentDigits (e : Int) : AreDigits (exponentDigits e) := by
  intro c hc
  rcases List.mem_append.mp hc with hc | hc
  · rw [(List.mem_replicate.mp hc).2]
    rfl
  · exact Token.areDigits_toDigits _ c hc

theorem exponentDigits_ne_nil (e : Int) : exponentDigits e ≠ [] := by
  refine List.append_ne_nil_of_right_ne_nil _ ?_
  rcases Token.leading_toDigits e.natAbs with h | ⟨c, cs, h, -⟩ <;> simp [h]

theorem toList_exponentText (e : Int) :
    (printed.exponentText e).toList = 'e' :: (if decide (e < 0) then '-' else '+') :: exponentDigits e := by
  have hdigits : (toString e.natAbs).toList = Nat.toDigits 10 e.natAbs := Nat.toList_repr
  simp only [Layout.exponentText, String.toList_append, String.toList_ofList, hdigits, decide_eq_true_eq]
  split <;> rfl

/-- The numeral with the given digits before and behind the point. -/
def Numeral.ofDigits (negative : Bool) (whole fraction : List Nat) (exponent : Option Int)
    (hwhole : ∀ k ∈ whole, k < 10) (hleading : whole = [0] ∨ ∃ k ks, whole = k :: ks ∧ k ≠ 0)
    (hfraction : ∀ k ∈ fraction, k < 10) : Numeral where
  negative := negative
  whole := whole.map Nat.digitChar
  fraction := fraction.map Nat.digitChar
  exponent := exponent.map fun e => (decide (e < 0), exponentDigits e)
  areWhole := areDigits_digitChars hwhole
  leading := by
    rcases hleading with rfl | ⟨k, ks, rfl, hk⟩
    · exact .inl rfl
    · exact .inr ⟨k.digitChar, _, rfl, digitChar_ne_zero k (hwhole k List.mem_cons_self) hk⟩
  areFraction := areDigits_digitChars hfraction
  areExponent := by
    rintro x hx
    obtain ⟨e, -, rfl⟩ := Option.map_eq_some_iff.mp hx
    exact ⟨exponentDigits_ne_nil e, areDigits_exponentDigits e⟩

/-! ### Values -/

/-- The rational number that digits write. -/
def Digits.ratio (d : Digits) : ℚ := Text.ofDigits 0 d.digits * 10 ^ (d.point - d.digits.length)

/-- The rational number that a numeral writes, without its sign. -/
def Numeral.ratio (n : Numeral) : ℚ :=
  decimalValue (n.whole ++ n.fraction) * 10 ^ (n.exponent?.getD 0 - n.fraction.length)

theorem decimalValue_digitChars {ds : List Nat} (h : ∀ k ∈ ds, k < 10) :
    decimalValue (ds.map Nat.digitChar) = Text.ofDigits 0 ds := by
  have hdigits : (ds.map Nat.digitChar).map (fun c => c.toNat - '0'.toNat) = ds := by
    rw [List.map_map]
    exact List.map_congr_left (fun k hk => Nat.toNat_digitChar_sub_48_of_lt_ten (h k hk)) |>.trans (List.map_id ds)
  rw [decimalValue, hdigits]

theorem decimalValue_zeros (n : Nat) (cs : List Char) : decimalValue (List.replicate n '0' ++ cs) = decimalValue cs := by
  induction n with
  | zero => rfl
  | succ n ih => exact ih

theorem signed_exponentDigits (e : Int) : signed (decide (e < 0)) (decimalValue (exponentDigits e)) = e := by
  rw [exponentDigits, decimalValue_zeros, Token.decimalValue_toDigits, signed]
  simp only [decide_eq_true_eq]
  split <;> omega

theorem Numeral.ratio_ofDigits {negative : Bool} {whole fraction : List Nat} {exponent : Option Int}
    {hwhole : ∀ k ∈ whole, k < 10} {hleading : whole = [0] ∨ ∃ k ks, whole = k :: ks ∧ k ≠ 0}
    {hfraction : ∀ k ∈ fraction, k < 10} :
    (ofDigits negative whole fraction exponent hwhole hleading hfraction).ratio =
      Text.ofDigits 0 (whole ++ fraction) * 10 ^ (exponent.getD 0 - fraction.length) := by
  have hexponent : (ofDigits negative whole fraction exponent hwhole hleading hfraction).exponent? = exponent := by
    cases exponent with
    | none => rfl
    | some e => exact congrArg some (signed_exponentDigits e)
  have hlength : (fraction.map Nat.digitChar).length = fraction.length := List.length_map _
  unfold ratio
  rw [hexponent]
  simp only [ofDigits]
  rw [hlength, ← List.map_append, decimalValue_digitChars (List.forall_mem_append.mpr ⟨hwhole, hfraction⟩)]

section
variable {k : Nat} {ks : List Nat} {p : Int} (hten : ∀ i ∈ k :: ks, i < 10) (negative : Bool)

/-- What it takes for a text to be a numeral of the value of digits, not much longer than they are, and no integer. -/
def IsFractional (d : Digits) (text : String) : Prop :=
  ∃ n : Numeral, n.negative = negative ∧ (n.fraction ≠ [] ∨ n.exponent ≠ none) ∧ text.toList = n.magnitude ∧
    n.ratio = d.ratio ∧ n.whole.length + n.fraction.length ≤ d.digits.length + 20

include hten

/-- With an exponent one digit stands before the point. -/
theorem isFractional_exponent (hk : k ≠ 0) :
    IsFractional negative ⟨k :: ks, p⟩
      (digitText [k] ++ (if (digitText ks).isEmpty then "" else "." ++ digitText ks) ++
        printed.exponentText (p - 1)) := by
  refine ⟨.ofDigits negative [k] ks (some (p - 1)) (by simpa using hten k List.mem_cons_self)
    (.inr ⟨k, [], rfl, hk⟩) (fun i hi => hten i (List.mem_cons_of_mem _ hi)), rfl, .inr nofun, ?_, ?_, ?_⟩
  · simp only [digitText_isEmpty, String.toList_append, toList_digitText, toList_exponentText]
    cases ks with
    | nil => rfl
    | cons i ks => simp [Numeral.magnitude, Numeral.pointText, Numeral.exponentText, Numeral.ofDigits, toList_digitText]
  · rw [Numeral.ratio_ofDigits, Digits.ratio, List.singleton_append, Option.getD_some, List.length_cons]
    refine congrArg _ (congrArg _ ?_)
    push_cast
    ring
  · simp only [Numeral.ofDigits, List.length_map, List.length_cons, List.length_nil]
    omega

/-- Below one the digits stand behind the point and some zeros. -/
theorem isFractional_small {n : Nat} (hn : p = -n) (hfew : n ≤ 3) :
    IsFractional negative ⟨k :: ks, p⟩ ("0." ++ digitText (List.replicate n 0 ++ k :: ks)) := by
  have hzeros : ∀ i ∈ List.replicate n 0, i < 10 := fun i hi => by
    rw [(List.mem_replicate.mp hi).2]
    decide
  refine ⟨.ofDigits negative [0] (List.replicate n 0 ++ k :: ks) none (by decide) (.inl rfl)
    (List.forall_mem_append.mpr ⟨hzeros, hten⟩), rfl, .inl (by simp [Numeral.ofDigits]), ?_, ?_, ?_⟩
  · simp [toList_digitText, Numeral.magnitude, Numeral.pointText, Numeral.exponentText, Numeral.ofDigits]
  · have hdigits : Text.ofDigits 0 ([0] ++ (List.replicate n 0 ++ k :: ks)) = Text.ofDigits 0 (k :: ks) := by
      show Text.ofDigits 0 (List.replicate n 0 ++ k :: ks) = _
      rw [ofDigits_append, ofDigits_zeros, Nat.zero_mul, Nat.zero_add]
    rw [Numeral.ratio_ofDigits, Digits.ratio, hdigits, hn, List.length_append, List.length_replicate, Option.getD_none]
    refine congrArg _ (congrArg _ ?_)
    push_cast
    ring
  · simp only [Numeral.ofDigits, List.length_map, List.length_cons, List.length_append, List.length_replicate,
      List.length_nil]
    omega

/-- Otherwise there are digits on both sides of the point. -/
theorem isFractional_positional {n : Nat} (hn : p = n + 1) (hfew : n < 16) (hk : k = 0 → ks = [] ∧ n = 0) :
    IsFractional negative ⟨k :: ks, p⟩
      (digitText ((k :: ks).take (n + 1) ++ List.replicate (n + 1 - (k :: ks).length) 0) ++ "." ++
        (if ((k :: ks).drop (n + 1)).isEmpty then "0" else digitText ((k :: ks).drop (n + 1)))) := by
  have hwhole : ∀ i ∈ (k :: ks).take (n + 1) ++ List.replicate (n + 1 - (k :: ks).length) 0, i < 10 := by
    intro i hi
    rcases List.mem_append.mp hi with hi | hi
    · exact hten i (List.mem_of_mem_take hi)
    · rw [(List.mem_replicate.mp hi).2]
      decide
  have hdrop : ∀ i ∈ (k :: ks).drop (n + 1), i < 10 := fun i hi => hten i (List.mem_of_mem_drop hi)
  have hleading : (k :: ks).take (n + 1) ++ List.replicate (n + 1 - (k :: ks).length) 0 = [0] ∨
      ∃ i is, (k :: ks).take (n + 1) ++ List.replicate (n + 1 - (k :: ks).length) 0 = i :: is ∧ i ≠ 0 := by
    by_cases hzero : k = 0
    · obtain ⟨rfl, rfl⟩ := hk hzero
      rw [hzero]
      exact .inl rfl
    · exact .inr ⟨k, _, rfl, hzero⟩
  generalize k :: ks = ds at *
  rcases Nat.lt_or_ge (n + 1) ds.length with hinside | hbeyond
  · have hfill : ds.take (n + 1) ++ List.replicate (n + 1 - ds.length) 0 = ds.take (n + 1) := by
      rw [Nat.sub_eq_zero_of_le (Nat.le_of_lt hinside), List.replicate_zero, List.append_nil]
    rw [hfill] at hwhole hleading ⊢
    have hne : ds.drop (n + 1) ≠ [] := by
      rw [Ne, List.drop_eq_nil_iff]
      omega
    rw [if_neg (by simpa using hne)]
    refine ⟨.ofDigits negative (ds.take (n + 1)) (ds.drop (n + 1)) none hwhole hleading hdrop, rfl, ?_, ?_, ?_, ?_⟩
    · exact .inl (by simpa [Numeral.ofDigits] using hne)
    · simp [toList_digitText, Numeral.magnitude, Numeral.pointText, Numeral.exponentText, Numeral.ofDigits, hinside]
    · rw [Numeral.ratio_ofDigits, Digits.ratio, List.take_append_drop, hn, List.length_drop,
        Nat.cast_sub (Nat.le_of_lt hinside)]
      refine congrArg _ (congrArg _ ?_)
      push_cast
      simp
    · simp only [Numeral.ofDigits, List.length_map, List.length_take, List.length_drop]
      omega
  · have hnil : ds.drop (n + 1) = [] := List.drop_eq_nil_iff.mpr hbeyond
    rw [List.take_of_length_le hbeyond] at *
    rw [hnil, List.isEmpty_nil, if_pos rfl]
    refine ⟨.ofDigits negative _ [0] none hwhole hleading (by decide), rfl, .inl (List.cons_ne_nil _ _), ?_, ?_, ?_⟩
    · simp [toList_digitText, Numeral.magnitude, Numeral.pointText, Numeral.exponentText, Numeral.ofDigits]
    · have hpower : (n : ℤ) + 1 - ds.length = ((n + 1 - ds.length : ℕ) : ℤ) := by omega
      rw [Numeral.ratio_ofDigits, Digits.ratio, ofDigits_append, ofDigits_append, ofDigits_zeros, hn, hpower,
        List.length_replicate, zpow_natCast]
      push_cast
      simp [Text.ofDigits]
    · simp only [Numeral.ofDigits, List.length_map, List.length_append, List.length_replicate, List.length_cons,
        List.length_nil]
      omega

end

theorem isFractional_body {d : Digits} (hd : d.Normal) (negative : Bool) :
    IsFractional negative d (printed.body d) := by
  obtain ⟨ds, p⟩ := d
  obtain ⟨k, ks, rfl, hk⟩ : ∃ k ks, ds = k :: ks ∧ (k = 0 ∧ ks = [] ∧ p = 1 ∨ k ≠ 0) := by
    rcases hd.leading with h | ⟨k, ks, h, hk⟩
    · cases h
      exact ⟨0, [], rfl, .inl ⟨rfl, rfl, rfl⟩⟩
    · exact ⟨k, ks, h, .inr hk⟩
  have hten : ∀ i ∈ k :: ks, i < 10 := hd.lt_ten
  have hfirst : printed.firstPoint = -3 := rfl
  have hlast : printed.lastPoint = 16 := rfl
  unfold Layout.body
  rw [hfirst, hlast]
  dsimp only
  split
  · next hfar =>
    simp only [Bool.or_eq_true, decide_eq_true_eq] at hfar
    -- Zero is written without an exponent.
    exact isFractional_exponent hten negative (hk.resolve_left fun h => by omega)
  · next hnear =>
    simp only [Bool.or_eq_true, decide_eq_true_eq, not_or, not_lt] at hnear
    split
    · exact isFractional_small hten negative (by omega) (by omega)
    · next hpoint =>
      obtain ⟨n, hn⟩ : ∃ n, p.toNat = n + 1 := ⟨p.toNat - 1, by omega⟩
      rw [hn]
      refine isFractional_positional hten negative (by omega) (by omega) fun hzero => ?_
      obtain ⟨-, hnil, hone⟩ := hk.resolve_right fun h => h hzero
      exact ⟨hnil, by omega⟩

/-! ### Numbers that read back -/

/-- A finite number that reads back is written as a numeral that is no integer and stands for the number. -/
theorem exists_numeral {x : Float} (hx : ReadsBack x) {negative : Bool} {m : Nat} {q : Int}
    (hdecode : Binary64.decode x = .finite negative m q) :
    ∃ n : Numeral, (n.fraction ≠ [] ∨ n.exponent ≠ none) ∧ (printed.text x).toList = n.text ∧ n.value = x := by
  have htext : printed.text x = (if negative then "-" else "") ++ printed.body (shortest m q) := by
    rw [Layout.text, hdecode]
  rcases shortest_cases m q with hnormal | ⟨hm, hempty⟩
  · obtain ⟨n, hnegative, hfractional, hbody, -⟩ := isFractional_body hnormal negative
    have hnumeral : (printed.text x).toList = n.text := by
      rw [htext, String.toList_append, hbody, Numeral.text, hnegative]
      cases negative <;> rfl
    exact ⟨n, hfractional, hnumeral, Option.some.inj ((n.number?_text hnumeral).symm.trans hx)⟩
  · -- Without a digit the text would be read as zero.
    exfalso
    have hzero : number? (printed.text x) = some (Binary64.ofRatio negative 0 1) := by
      rw [htext, hempty]
      cases negative <;> rfl
    rw [← Option.some.inj (hzero.symm.trans hx)] at hdecode
    have hdecode' : Binary64.decode (Binary64.ofRatio negative 0 1) = .finite negative 0 Binary64.minExponent := by
      cases negative <;> decide +kernel
    rw [hdecode'] at hdecode
    cases hdecode
    exact hm rfl

theorem eq_infinity {x : Float} (hx : ReadsBack x) {negative : Bool}
    (hdecode : Binary64.decode x = .infinite negative) : x = Binary64.infinity negative := by
  rw [ReadsBack, Layout.text, hdecode] at hx
  cases negative <;> exact (Option.some.inj hx).symm

theorem eq_nan {x : Float} (hx : ReadsBack x) (hdecode : Binary64.decode x = .nan) : x = Binary64.nan := by
  rw [ReadsBack, Layout.text, hdecode] at hx
  exact (Option.some.inj hx).symm

end Decimal
end TypedImp
