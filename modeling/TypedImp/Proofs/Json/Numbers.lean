import TypedImp.Json.Reader
import TypedImp.Proofs.Decimal.Numeral
import TypedImp.Proofs.Token.Digits

/-! Numbers in an interchange file. The reader takes the longest number that begins where it stands, so that it finds
    the parts of a numeral as long as no more of a number follows it. -/

namespace TypedImp
open Token (AreDigits decimalValue)
open Decimal (Numeral)

namespace Json

/-- Can the character be the next one of a number? -/
def continues (c : Char) : Bool := Text.isAsciiDigit c || c = '.' || c = 'e' || c = 'E'

/-- A number ends in front of the text. -/
def Stops (rest : List Char) : Prop := ∀ c ∈ rest.head?, continues c = false

theorem stops_nil : Stops [] := fun _ h => nomatch h

theorem stops_cons {c : Char} (h : continues c = false) (rest : List Char) : Stops (c :: rest) := fun _ hc => by
  cases hc
  exact h

theorem takeWhile_digits {ds rest : List Char} (h : AreDigits ds)
    (hrest : ∀ c ∈ rest.head?, Text.isAsciiDigit c = false) : (ds ++ rest).takeWhile Text.isAsciiDigit = ds := by
  rw [List.takeWhile_append_of_pos h]
  cases rest with
  | nil => rw [List.takeWhile_nil, List.append_nil]
  | cons c rest =>
    rw [List.takeWhile_cons_of_neg (by simp [hrest c rfl]), List.append_nil]

end Json

namespace Decimal.Numeral
variable (n : Numeral)
open Json (Stops)

/-! ### Where the parts end -/

theorem stop_behind_fraction {rest : List Char} (hrest : Stops rest) :
    ∀ c ∈ (n.exponentText ++ rest).head?, Text.isAsciiDigit c = false ∧ c ≠ '.' := by
  rcases n.exponentText_cases with ⟨-, htext⟩ | ⟨negative, ds, -, -, -, htext⟩
  · intro c hc
    rw [htext, List.nil_append] at hc
    have := hrest c hc
    simp only [Json.continues, Bool.or_eq_false_iff, decide_eq_false_iff_not] at this
    exact ⟨this.1.1.1, this.1.1.2⟩
  · intro c hc
    rw [htext, List.cons_append] at hc
    cases hc
    decide

theorem stop_behind_whole {rest : List Char} (hrest : Stops rest) :
    ∀ c ∈ (n.pointText ++ (n.exponentText ++ rest)).head?, Text.isAsciiDigit c = false := by
  rcases n.pointText_append_cases (n.exponentText ++ rest) with ⟨-, htext⟩ | ⟨-, htext⟩
  · rw [htext]
    exact fun c hc => (n.stop_behind_fraction hrest c hc).1
  · rw [htext]
    intro c hc
    cases hc
    rfl

/-! ### Reading the parts -/

theorem wholeDigits_append {rest : List Char} (hrest : ∀ c ∈ rest.head?, Text.isAsciiDigit c = false) :
    Json.wholeDigits (n.whole ++ rest) = n.whole := by
  rcases n.leading with h | ⟨c, cs, h, hc⟩
  · rw [h]
    rfl
  · have htake := Json.takeWhile_digits n.areWhole hrest
    rw [h, List.cons_append] at htake ⊢
    unfold Json.wholeDigits
    split
    · next heq => exact absurd (List.cons.inj heq).1 hc
    · exact htake

theorem fractionDigits_append {rest : List Char}
    (hrest : ∀ c ∈ rest.head?, Text.isAsciiDigit c = false ∧ c ≠ '.') :
    Json.fractionDigits (n.pointText ++ rest) = n.fraction := by
  rcases n.pointText_append_cases rest with ⟨hfraction, htext⟩ | ⟨-, htext⟩
  · rw [htext, hfraction]
    unfold Json.fractionDigits
    split
    · exact absurd rfl (hrest '.' rfl).2
    · rfl
  · rw [htext]
    exact Json.takeWhile_digits n.areFraction fun c hc => (hrest c hc).1

theorem length_pointText : (if n.fraction = [] then 0 else n.fraction.length + 1) = n.pointText.length := by
  simp only [pointText, List.isEmpty_iff]
  split <;> rfl

theorem exponentPart_append {rest : List Char} (hrest : Stops rest) :
    Json.exponentPart (n.exponentText ++ rest) = (n.exponent?, n.exponentText.length) := by
  rcases n.exponentText_cases with ⟨hexponent, htext⟩ | ⟨negative, ds, hexponent, hne, hds, htext⟩
  · rw [htext, exponent?, hexponent, List.nil_append]
    cases rest with
    | nil => rfl
    | cons c rest =>
      have hc := hrest c rfl
      simp only [Json.continues, Bool.or_eq_false_iff, decide_eq_false_iff_not] at hc
      simp [Json.exponentPart, hc.2, hc.1.2]
  · have hsign : signOf ((if negative then '-' else '+') :: (ds ++ rest)) = (negative, ds ++ rest) := by
      cases negative <;> rfl
    have htake : (ds ++ rest).takeWhile Text.isAsciiDigit = ds := Json.takeWhile_digits hds fun c hc => by
      have := hrest c hc
      simp only [Json.continues, Bool.or_eq_false_iff] at this
      exact this.1.1.1
    have hlength : 1 + (((if negative then '-' else '+') :: (ds ++ rest)).length - (ds ++ rest).length) + ds.length =
        n.exponentText.length := by
      rw [htext]
      simp only [List.length_cons]
      omega
    rw [← hlength, htext, exponent?, hexponent, List.cons_append, List.cons_append, Json.exponentPart,
      if_pos (by simp), hsign]
    simp only [htake, List.isEmpty_iff, hne, if_false]
    rfl

theorem text_append_cases (rest : List Char) :
    (n.negative = true ∧ n.text ++ rest = '-' :: (n.whole ++ (n.pointText ++ (n.exponentText ++ rest)))) ∨
      (n.negative = false ∧ n.text ++ rest = n.whole ++ (n.pointText ++ (n.exponentText ++ rest)) ∧
        ∀ cs, n.whole ++ (n.pointText ++ (n.exponentText ++ rest)) ≠ '-' :: cs) := by
  unfold text signText magnitude
  cases n.negative with
  | true => exact .inl ⟨rfl, by simp⟩
  | false =>
    obtain ⟨c, cs, h, hc⟩ := n.exists_whole
    refine .inr ⟨rfl, by simp, fun ds heq => ?_⟩
    rw [h, List.cons_append] at heq
    rw [(List.cons.inj heq).1] at hc
    exact absurd hc (by decide)

/-- The reader finds the parts of a numeral and its length. -/
theorem numberText?_append {rest : List Char} (hrest : Stops rest) :
    Json.numberText? (n.text ++ rest) =
      some ⟨n.negative, n.whole, n.fraction, n.exponent?, n.text.length⟩ := by
  have hwhole : n.whole.isEmpty = false := by
    obtain ⟨c, cs, h, -⟩ := n.exists_whole
    rw [h]
    rfl
  have hlength : n.text.length =
      (if n.negative then 1 else 0) + n.whole.length + n.pointText.length + n.exponentText.length := by
    unfold text signText magnitude
    cases n.negative <;> simp <;> omega
  rcases n.text_append_cases rest with ⟨hnegative, htext⟩ | ⟨hnegative, htext, hne⟩
  · simp [htext, Json.numberText?, n.wholeDigits_append (n.stop_behind_whole hrest), hwhole,
      n.fractionDigits_append (n.stop_behind_fraction hrest), length_pointText, n.exponentPart_append hrest,
      hlength, hnegative]
  · unfold Json.numberText?
    rw [htext]
    split
    next negative body heq =>
    split at heq
    · next h => exact absurd h (hne _)
    · cases heq
      simp [n.wholeDigits_append (n.stop_behind_whole hrest), hwhole,
        n.fractionDigits_append (n.stop_behind_fraction hrest), length_pointText, n.exponentPart_append hrest,
        hlength, hnegative]

/-! ### Values -/

/-- A number without fraction and exponent, in decimal digits. -/
def ofInt (i : Int) : Numeral where
  negative := i < 0
  whole := Nat.toDigits 10 i.natAbs
  fraction := []
  exponent := none
  areWhole := Token.areDigits_toDigits i.natAbs
  leading := Token.leading_toDigits i.natAbs
  areFraction := fun _ h => nomatch h
  areExponent := fun _ h => nomatch h

theorem text_ofInt (i : Int) : (ofInt i).text = (toString i).toList := by
  have htext : (ofInt i).text = signText (i < 0) ++ Nat.toDigits 10 i.natAbs := by
    unfold text magnitude
    exact congrArg _ (List.append_nil _)
  rw [htext]
  cases i with
  | ofNat n =>
    have hsign : decide (Int.ofNat n < 0) = false := by simp
    rw [hsign]
    exact Nat.toList_repr.symm
  | negSucc n =>
    have hsign : decide (Int.negSucc n < 0) = true := by simp [Int.negSucc_lt_zero]
    rw [hsign]
    show _ = ("-" ++ Nat.repr (n + 1)).toList
    rw [String.toList_append, Nat.toList_repr]
    rfl

end Decimal.Numeral

namespace Json

theorem value_eq_float {t : NumberText} (h : t.fraction ≠ [] ∨ t.exponent ≠ none) :
    t.value = .ok (.float (Decimal.scientific t.negative (decimalValue (t.whole ++ t.fraction))
      (t.exponent.getD 0 - t.fraction.length))) := by
  have hfalse : (t.fraction.isEmpty && t.exponent.isNone) = false := by
    rw [Bool.and_eq_false_iff, List.isEmpty_eq_false_iff, Option.isNone_eq_false_iff, Option.isSome_iff_ne_none]
    exact h
  rw [NumberText.value, hfalse]
  rfl

theorem value_eq_int {t : NumberText} (hfraction : t.fraction = []) (hexponent : t.exponent = none)
    (hlength : t.whole.length ≤ Decimal.maxIntegerDigits) :
    t.value = .ok (.int (Decimal.signed t.negative (decimalValue t.whole))) := by
  have htrue : (t.fraction.isEmpty && t.exponent.isNone) = true := by
    rw [hfraction, hexponent]
    rfl
  rw [NumberText.value, htrue, if_pos rfl, if_neg (Nat.not_lt.mpr hlength)]
  rfl

/-- The integers that are short enough to be read. -/
def IsShort (i : Int) : Prop := (Nat.toDigits 10 i.natAbs).length ≤ Decimal.maxIntegerDigits

theorem signed_natAbs (i : Int) : Decimal.signed (i < 0) i.natAbs = i := by
  unfold Decimal.signed
  simp only [decide_eq_true_eq]
  split <;> omega

/-! ### Reading a number -/

/-- No word stands where a number begins. -/
theorem words_find?_numeral (n : Numeral) (rest : List Char) :
    words.find? (fun w => w.1.isPrefixOf (n.text ++ rest)) = none := by
  obtain ⟨c, cs, hwhole, hc⟩ := n.exists_whole
  have hne : ∀ d : Char, Text.isAsciiDigit d = false → d ≠ c := by
    rintro d hd rfl
    rw [hd] at hc
    cases hc
  have hnull := hne 'n' rfl
  have htrue := hne 't' rfl
  have hfalse := hne 'f' rfl
  have hnan := hne 'N' rfl
  have hinfinity := hne 'I' rfl
  have hminus := hne '-' rfl
  rcases n.text_append_cases rest with ⟨-, htext⟩ | ⟨-, htext, -⟩
  · rw [htext, hwhole]
    simp [words, hinfinity]
  · rw [htext, hwhole]
    simp [words, hnull, htrue, hfalse, hnan, hinfinity, hminus]

theorem readScalar_numeral {n : Numeral} {v : Json} {rest : List Char} (hrest : Stops rest)
    (hvalue : NumberText.value ⟨n.negative, n.whole, n.fraction, n.exponent?, n.text.length⟩ = .ok v) (offset : Nat) :
    readScalar ⟨n.text ++ rest, offset⟩ = .ok (v, ⟨rest, offset + n.text.length⟩) := by
  simp only [readScalar, words_find?_numeral, n.numberText?_append hrest, hvalue]
  show Except.ok (v, Cursor.drop ⟨n.text ++ rest, offset⟩ n.text.length) = _
  rw [Cursor.drop, List.drop_left]

/-- The reader finds an integer that is short enough. -/
theorem readScalar_int {i : Int} (hi : IsShort i) {rest : List Char} (hrest : Stops rest) (offset : Nat) :
    readScalar ⟨(toString i).toList ++ rest, offset⟩ = .ok (.int i, ⟨rest, offset + (toString i).toList.length⟩) := by
  rw [← Numeral.text_ofInt]
  refine readScalar_numeral hrest ?_ offset
  refine (value_eq_int (t := ⟨_, Nat.toDigits 10 i.natAbs, [], none, _⟩) rfl rfl hi).trans ?_
  show Except.ok (Json.int (Decimal.signed (i < 0) (decimalValue (Nat.toDigits 10 i.natAbs)))) = _
  rw [Token.decimalValue_toDigits, signed_natAbs]

/-- The reader finds the binary number that a numeral with a fraction or an exponent stands for. -/
theorem readScalar_float {n : Numeral} (hn : n.fraction ≠ [] ∨ n.exponent ≠ none) {rest : List Char}
    (hrest : Stops rest) (offset : Nat) :
    readScalar ⟨n.text ++ rest, offset⟩ = .ok (.float n.value, ⟨rest, offset + n.text.length⟩) := by
  refine readScalar_numeral hrest (value_eq_float (hn.imp_right fun h => ?_)) offset
  simpa [Numeral.exponent?] using h

end Json
end TypedImp
