import Mathlib.Data.Prod.Lex
import TypedImp.Proofs.Grammar.Lexing
import TypedImp.Proofs.Token.Respelling

/-! The places of a text in order. The scanner never goes back, and every character takes it on; so all tokens lie
    behind the place where it stands. -/

namespace TypedImp

/-! ### The order -/

namespace Position

theorem toLex_injective : Function.Injective fun p : Position => toLex (p.line, p.column) := by
  intro p q h
  obtain ⟨hline, hcolumn⟩ := Prod.ext_iff.mp (toLex_inj.mp h)
  cases p
  cases q
  exact congr (congrArg Position.mk hline) hcolumn

/-- Lines first, then columns. -/
instance : PartialOrder Position := PartialOrder.lift (fun p => toLex (p.line, p.column)) toLex_injective

theorem lt_iff {p q : Position} : p < q ↔ p.line < q.line ∨ p.line = q.line ∧ p.column < q.column :=
  Prod.Lex.toLex_lt_toLex

end Position

namespace Scanner

/-! ### Moving on -/

theorem lt_after (p : Position) (c : Char) : p < after p c := by
  rw [Position.lt_iff, after]
  split
  · exact .inl (Nat.lt_succ_self _)
  · exact .inr ⟨rfl, Nat.lt_succ_self _⟩

theorem position_le_advance (n : Nat) (s : Scanner) : s.position ≤ (s.advance n).position := by
  induction n generalizing s with
  | zero => exact le_refl _
  | succ n ih =>
    unfold advance
    split
    · exact le_refl _
    · next c cs _ => exact (lt_after s.position c).le.trans (ih ⟨cs, s.offset + 1, after s.position c⟩)

theorem position_lt_advance {s : Scanner} {n : Nat} (hn : 0 < n) (hs : s.rest ≠ []) :
    s.position < (s.advance n).position := by
  obtain ⟨n, rfl⟩ := Nat.exists_eq_succ_of_ne_zero hn.ne'
  unfold advance
  split
  · next h => exact absurd h hs
  · next c cs _ =>
    exact (lt_after s.position c).trans_le (position_le_advance n ⟨cs, s.offset + 1, after s.position c⟩)

/-! ### Tokens -/

/-- No token lies in front of the place where the scanner stands. -/
theorem position_le_of_mem_tokens {s : Scanner} {t : Token} (h : t ∈ s.tokens) : s.position ≤ t.position := by
  have hskip : s.position ≤ s.skipTrivia.position := position_le_advance _ _
  have hbegins := Grammar.tokens_begin s
  generalize s.tokens = ts at h hbegins
  cases hbegins with
  | eof | fault =>
    obtain rfl := List.mem_singleton.mp h
    exact hskip
  | token rest _ _ hlt =>
    rcases List.mem_cons.mp h with rfl | h
    · exact hskip
    · exact hskip.trans ((position_le_advance _ _).trans (position_le_of_mem_tokens h))
termination_by s.rest.length

end Scanner
end TypedImp
