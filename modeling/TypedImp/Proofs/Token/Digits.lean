import TypedImp.Proofs.Syntax.Derivation

/-! The digits that a natural number is written with. -/

namespace TypedImp
namespace Token

theorem isAsciiDigit_eq_isDigit (c : Char) : Text.isAsciiDigit c = c.isDigit := by
  simp only [Text.isAsciiDigit, Char.isDigit, Char.le_def, ge_iff_le]

theorem areDigits_toDigits (n : Nat) : AreDigits (Nat.toDigits 10 n) := fun c hc => by
  rw [isAsciiDigit_eq_isDigit]
  exact Nat.isDigit_of_mem_toDigits (by decide) (by decide) hc

theorem decimalValue_concat (cs : List Char) (c : Char) :
    decimalValue (cs ++ [c]) = decimalValue cs * 10 + (c.toNat - '0'.toNat) := by
  unfold decimalValue Text.ofDigits
  rw [List.map_append, List.foldl_append]
  rfl

/-- The digits of a number have its value. -/
theorem decimalValue_toDigits (n : Nat) : decimalValue (Nat.toDigits 10 n) = n := by
  induction n using Nat.strongRecOn with
  | ind n ih =>
    have hdigit : ∀ d : Nat, d < 10 → d.digitChar.toNat - '0'.toNat = d := fun d hd =>
      Nat.toNat_digitChar_sub_48_of_lt_ten hd
    by_cases hn : n < 10
    · rw [Nat.toDigits_of_lt_base hn]
      show 0 * 10 + (n.digitChar.toNat - '0'.toNat) = n
      rw [hdigit n hn]
      omega
    · rw [Nat.toDigits_of_base_le (by decide) (by omega), decimalValue_concat, ih (n / 10) (by omega),
        hdigit (n % 10) (by omega)]
      omega

/-- No digits but those of zero begin with a zero. -/
theorem leading_toDigits (n : Nat) : Nat.toDigits 10 n = ['0'] ∨ ∃ c cs, Nat.toDigits 10 n = c :: cs ∧ c ≠ '0' := by
  have hnonzero : ∀ d < 10, d ≠ 0 → d.digitChar ≠ '0' := by decide
  induction n using Nat.strongRecOn with
  | ind n ih =>
    by_cases hn : n < 10
    · rw [Nat.toDigits_of_lt_base hn]
      rcases Nat.eq_zero_or_pos n with rfl | hpos
      · exact .inl rfl
      · exact .inr ⟨_, [], rfl, hnonzero n hn (by omega)⟩
    · rw [Nat.toDigits_of_base_le (by decide) (by omega)]
      rcases ih (n / 10) (by omega) with h | ⟨c, cs, h, hc⟩
      · have := decimalValue_toDigits (n / 10)
        rw [h] at this
        have hzero : decimalValue ['0'] = 0 := rfl
        omega
      · exact .inr ⟨c, cs ++ [(n % 10).digitChar], by rw [h, List.cons_append], hc⟩

end Token
end TypedImp
