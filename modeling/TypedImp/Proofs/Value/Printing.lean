import Mathlib.Data.Nat.Digits.Defs
import TypedImp.Proofs.Decimal.RoundTrip
import TypedImp.Proofs.Json.Numbers
import TypedImp.Proofs.Value.Proper

/-! Printing and reading are inverse. A value that the language makes is read back from what is printed of it, and what
    is read is a value of the type that was asked for. -/

namespace TypedImp

/-- Integers of 64 bits have nineteen digits at most. -/
theorem Json.isShort_of_inRange {i : Int} (h : Word.inRange i = true) : Json.IsShort i := by
  rw [Word.inRange_iff] at h
  have hbound : i.natAbs < 10 ^ 19 := by omega
  exact Nat.le_trans (Nat.toDigits_length 10 i.natAbs 19 (by decide) hbound) (by decide)

/-- The text of an integer that is short enough is read as the integer. -/
theorem Decimal.integer_toString {i : Int} (h : Json.IsShort i) : integer (toString i) = .ok i := by
  have htext := Numeral.text_ofInt i
  have htrim : Text.trimBy isNumeralBlank (toString i).toList = (Numeral.ofInt i).text := by
    rw [← htext]
    exact (Numeral.ofInt i).trimBy_text fun _ => (Numeral.ofInt i).isNumeralBlank_of_mem
  have hmagnitude : (Numeral.ofInt i).magnitude = Nat.toDigits 10 i.natAbs := List.append_nil _
  have hvalue : Text.ofDigits 0 ((Nat.toDigits 10 i.natAbs).map fun c => c.toNat - '0'.toNat) = i.natAbs :=
    Token.decimalValue_toDigits i.natAbs
  unfold integer
  rw [htrim, Numeral.signOf_text, hmagnitude]
  dsimp only
  rw [Token.digitRow_digits (Token.areDigits_toDigits i.natAbs)]
  dsimp only
  rw [if_neg (by rw [List.length_map]; exact Nat.not_lt.mpr h), if_neg (by simp), hvalue]
  exact congrArg Except.ok (Json.signed_natAbs i)

namespace Value

/-- The one kind of value that is not equal to itself. -/
def IsNaN : Value → Prop
  | float x => Binary64.decode x = .nan
  | _ => False

theorem trimmed_numeral (n : Decimal.Numeral) {s : String} (hs : s.toList = n.text) : trimmed s = s := by
  have htrim : Text.trim n.text = n.text := n.trimBy_text fun _ => n.isBlank_of_mem
  rw [trimmed, hs, htrim, ← hs, String.ofList_toList]

theorem trimmed_toString (i : Int) : trimmed (toString i) = toString i :=
  trimmed_numeral (.ofInt i) (Decimal.Numeral.text_ofInt i).symm

theorem trimmed_printed {x : Float} (hx : Binary64.decode x ≠ .nan) :
    trimmed (Decimal.printed.text x) = Decimal.printed.text x := by
  cases hdecode : Binary64.decode x with
  | nan => exact absurd hdecode hx
  | infinite negative =>
    rw [Decimal.Layout.text, hdecode]
    cases negative <;> decide
  | finite negative m q =>
    obtain ⟨n, -, htext, -⟩ := Decimal.exists_numeral (Decimal.readsBack hx) hdecode
    exact trimmed_numeral n htext

/-- A value is read back from its text. -/
theorem Proper.read_text {v : Value} (hv : v.Proper) (hnan : ¬v.IsNaN) : read v.ty v.text = .ok v := by
  cases v with
  | int n =>
    have hrange := proper_int_iff.mp hv
    show readInt (toString n) = _
    rw [readInt, trimmed_toString, Decimal.integer_toString (Json.isShort_of_inRange hrange)]
    exact if_pos hrange
  | float x =>
    show readFloat (Decimal.printed.text x) = _
    rw [readFloat, trimmed_printed hnan, Decimal.readsBack hnan]
  | bool b => cases b <;> rfl
  | char s =>
    obtain ⟨c, hc⟩ : ∃ c, s.toList = [c] := List.length_eq_one_iff.mp hv
    show Except.ok (char (String.singleton (s.toList.headD _))) = _
    rw [hc, List.headD_cons, ← String.ofList_toList (s := s), hc]
    rfl
  | string s => rfl
  | loose => exact hv.elim

/-- Every value but a NaN is read back from its text by the name of its type; and whatever is read, by whatever name
    from whatever text, is a value of the type of that name, an integer in range or one character if it is of these. -/
theorem printing_and_reading :
    (∀ v : Value, v.Proper → ¬v.IsNaN → readNamed v.ty.name v.text = .ok v) ∧
      ∀ (typeName text : String) (v : Value), readNamed typeName text = .ok v → v.ty.name = typeName ∧ v.Proper := by
  refine ⟨fun v hv hnan => ?_, fun typeName text v h => ?_⟩
  · rw [readNamed, Ty.ofName?_name]
    exact hv.read_text hnan
  · unfold readNamed at h
    split at h
    · cases h
    · next t ht =>
      obtain ⟨hproper, hty⟩ := proper_read h
      have hname : t.name = typeName := by simpa using List.find?_some ht
      exact ⟨hty ▸ hname, hproper⟩

/-- The least integer, the null character and minus infinity. -/
theorem extremes_read_back :
    (int (-2 ^ 63)).Proper ∧ ¬(int (-2 ^ 63)).IsNaN ∧ readNamed "int" (int (-2 ^ 63)).text = .ok (int (-2 ^ 63)) ∧
      (char "\x00").Proper ∧ ¬(char "\x00").IsNaN ∧ readNamed "char" "\x00" = .ok (char "\x00") ∧
      (float (Binary64.infinity true)).Proper ∧ ¬(float (Binary64.infinity true)).IsNaN ∧
      readNamed "float" (float (Binary64.infinity true)).text = .ok (float (Binary64.infinity true)) ∧
      readNamed "bool" " TRUE " = .ok (bool true) ∧ (bool true).ty.name = "bool" ∧ (bool true).Proper := by
  obtain ⟨hback, hread⟩ := printing_and_reading
  have hint : (int (-2 ^ 63)).Proper := by
    unfold Proper
    decide
  have hchar : (char "\x00").Proper := by
    unfold Proper
    decide
  have hnan : ¬(float (Binary64.infinity true)).IsNaN := by
    unfold IsNaN
    decide +kernel
  have htrue : readNamed "bool" " TRUE " = .ok (bool true) := rfl
  exact ⟨hint, id, hback _ hint id, hchar, id, hback _ hchar id, trivial, hnan,
    hback (float (Binary64.infinity true)) trivial hnan, htrue, hread _ _ _ htrue⟩

end Value
end TypedImp
