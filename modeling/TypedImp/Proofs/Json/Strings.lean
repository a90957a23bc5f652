import TypedImp.Json.Printer
import TypedImp.Json.Reader

/-! Strings in an interchange file. Whatever characters a string has, the reader finds them again behind the
    escapes that the printer writes. -/

namespace TypedImp
namespace Json

/-! ### Escapes -/

theorem hexDigit?_digitChar : ∀ d < 16, hexDigit? (Nat.digitChar d) = some d := by decide

/-- The four digits of a code unit. -/
theorem hexDigits_four {n : Nat} (h : n < 65536) :
    ∃ a b c d, Text.hexDigits 4 n = [a, b, c, d] ∧ hex4? a b c d = some n := by
  refine ⟨_, _, _, _, rfl, ?_⟩
  unfold hex4?
  rw [hexDigit?_digitChar _ (Nat.mod_lt _ (by decide)), hexDigit?_digitChar _ (Nat.mod_lt _ (by decide)),
    hexDigit?_digitChar _ (Nat.mod_lt _ (by decide)), hexDigit?_digitChar _ (Nat.mod_lt _ (by decide))]
  refine congrArg some ?_
  omega

/-- A character is written as a backslash with a letter, as a backslash with its code, or as it is. -/
theorem escapeChar_cases (c : Char) :
    (∃ k, k ≠ 'u' ∧ escapeChar c = ['\\', k] ∧ simpleEscape? k = some c) ∨
      (c.toNat < 0x20 ∧ escapeChar c = '\\' :: 'u' :: Text.hexDigits 4 c.toNat) ∨
      (c ≠ '\x22' ∧ c ≠ '\\' ∧ ¬c.toNat < 0x20 ∧ escapeChar c = [c]) := by
  unfold escapeChar
  split
  · next h => exact .inl ⟨'\x22', by decide, rfl, by rw [h]; rfl⟩
  split
  · next h => exact .inl ⟨'\\', by decide, rfl, by rw [h]; rfl⟩
  split
  · next h => exact .inl ⟨'n', by decide, rfl, by rw [h]; rfl⟩
  split
  · next h => exact .inl ⟨'r', by decide, rfl, by rw [h]; rfl⟩
  split
  · next h => exact .inl ⟨'t', by decide, rfl, by rw [h]; rfl⟩
  split
  · next h => exact .inl ⟨'b', by decide, rfl, by rw [h]; rfl⟩
  split
  · next h => exact .inl ⟨'f', by decide, rfl, by rw [h]; rfl⟩
  split
  · next h => exact .inr (.inl ⟨h, rfl⟩)
  · next hquote hslash _ _ _ _ _ h => exact .inr (.inr ⟨hquote, hslash, h, rfl⟩)

/-- One step of the reader takes what the printer wrote for one character. A closing quote follows in any case. -/
theorem stringBody_escapeChar (c : Char) {rest : List Char} (hrest : rest ≠ []) (start fuel offset : Nat)
    (done : List Char) :
    stringBody start (fuel + 1) (escapeChar c ++ rest) offset done =
      stringBody start fuel rest (offset + (escapeChar c).length) (c :: done) := by
  rcases escapeChar_cases c with ⟨k, hk, hc, hescape⟩ | ⟨hcontrol, hc⟩ | ⟨hquote, hslash, hcontrol, hc⟩
  · rw [hc]
    simp [stringBody, hk, hescape]
  · obtain ⟨e, rest, rfl⟩ := List.exists_cons_of_ne_nil hrest
    obtain ⟨a, b, x, d, hdigits, hunit⟩ := hexDigits_four (n := c.toNat) (by omega)
    have hhigh : isHighSurrogate c.toNat = false := by
      simp only [isHighSurrogate, Bool.and_eq_false_iff, decide_eq_false_iff_not]
      omega
    have hchar : unitChar c.toNat = c := by
      unfold unitChar
      rw [if_neg (by simp; omega), Char.ofNat_toNat]
    rw [hc, hdigits]
    simp [stringBody, hunit, hhigh, hchar]
  · rw [hc]
    simp [stringBody, hquote, hslash, hcontrol]

/-! ### Strings -/

/-- The reader finds the characters of a string one after the other, up to the closing quote. -/
theorem stringBody_escaped (cs rest : List Char) (start : Nat) {fuel : Nat} (hfuel : cs.length < fuel) (offset : Nat)
    (done : List Char) :
    stringBody start fuel (cs.flatMap escapeChar ++ '\x22' :: rest) offset done =
      .ok (String.ofList (done.reverse ++ cs), ⟨rest, offset + (cs.flatMap escapeChar).length + 1⟩) := by
  induction cs generalizing fuel offset done with
  | nil =>
    obtain ⟨fuel, rfl⟩ := Nat.exists_eq_succ_of_ne_zero (Nat.ne_zero_of_lt hfuel)
    simp [stringBody]
  | cons c cs ih =>
    obtain ⟨fuel, rfl⟩ := Nat.exists_eq_succ_of_ne_zero (Nat.ne_zero_of_lt hfuel)
    rw [List.flatMap_cons, List.append_assoc, stringBody_escapeChar c (by simp),
      ih (Nat.lt_of_succ_lt_succ hfuel)]
    simp [Nat.add_assoc]

theorem length_le_escaped (cs : List Char) : cs.length ≤ (cs.flatMap escapeChar).length := by
  induction cs with
  | nil => exact Nat.le_refl 0
  | cons c cs ih =>
    have hc : 0 < (escapeChar c).length := by
      rcases escapeChar_cases c with ⟨k, -, hc, -⟩ | ⟨-, hc⟩ | ⟨-, -, -, hc⟩ <;> simp [hc]
    rw [List.flatMap_cons, List.length_append, List.length_cons]
    omega

theorem toList_stringText (s : String) :
    (stringText s).toList = '\x22' :: (s.toList.flatMap escapeChar ++ ['\x22']) := by
  rw [stringText, String.toList_ofList, List.cons_append]

/-- The reader finds the string that the printer wrote, and stands behind it. -/
theorem readString_stringText (s : String) (rest : List Char) (offset : Nat) :
    readString ⟨(stringText s).toList ++ rest, offset⟩ = .ok (s, ⟨rest, offset + (stringText s).toList.length⟩) := by
  have hlength := length_le_escaped s.toList
  have htext : (stringText s).toList ++ rest = '\x22' :: (s.toList.flatMap escapeChar ++ '\x22' :: rest) := by
    simp [toList_stringText]
  have hfuel : s.toList.length < ('\x22' :: (s.toList.flatMap escapeChar ++ '\x22' :: rest)).length + 1 := by
    rw [List.length_cons, List.length_append, List.length_cons]
    omega
  rw [readString, htext, List.drop_succ_cons, List.drop_zero, stringBody_escaped _ _ _ hfuel, toList_stringText]
  simp [Nat.add_assoc, Nat.add_comm 1]

end Json
end TypedImp
