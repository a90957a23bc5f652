import TypedImp.Proofs.Syntax.Recognition
import TypedImp.Proofs.Syntax.Sight

/-! Literals that stand for no value. Where such a literal comes first, every parser on the way down to it fails for what is
    wrong with the literal, and so does the parser of the whole program. -/

namespace TypedImp
namespace Syntax
open TypedImp.Parser

/-- Only a number can be faulty. -/
theorem kind_of_faulty {t : Token} {e : ParseError} (h : literal? t = some (.error e)) :
    t.kind = .integer ∨ t.kind = .float := by
  unfold literal? at h
  split at h
  · next hkind => exact .inl hkind
  · next hkind => exact .inr hkind
  all_goals cases h

/-- Where the token is the next one, the parser fails with the error. -/
def FailsAt {α : Type} (s : Source) (t : Token) (e : ParseError) (p : Parser α) : Prop :=
  ∀ ⦃c⦄, s.next (s.ahead c) = t → ∃ d, p s.stream c = .error e d

namespace FailsAt
variable {α β : Type} {s : Source} {t : Token} {e : ParseError} {p : Parser α}

theorem bind {f : α → Parser β} (hp : FailsAt s t e p) : FailsAt s t e (p >>= f) := fun _ hc =>
  (hp hc).imp fun _ h => bind_of_error h

/-- There are steps left at the beginning. -/
theorem stepBound {f : Nat → Parser β} (hf : ∀ n, FailsAt s t e (f (n + 1))) : FailsAt s t e (stepBound >>= f) := by
  intro c hc
  rw [stepBound_bind]
  exact hf (s.body.length + 1) hc

variable (ht : literal? t = some (.error e))
include ht

theorem primary (inner : Parser Expr) : FailsAt s t e (primary inner) := by
  intro c hc
  refine ⟨forward c, ?_⟩
  rw [Parser.primary, peek_bind, hc, ht]
  rfl

theorem signed (inner : Parser Expr) (n : Nat) : FailsAt s t e (signed (Parser.primary inner) (n + 1)) := by
  intro c hc
  have hsign : ¬signs.has t.kind = true := by
    rcases kind_of_faulty ht with hkind | hkind
    · rw [hkind]
      decide
    · rw [hkind]
      decide
  rw [Parser.signed, isNext_bind_ite, hc, if_neg hsign]
  exact primary ht inner hc

omit ht in
/-- The loosest operator stands behind an operand of the tighter levels. -/
theorem binary {operand : Parser Expr} (ho : FailsAt s t e operand) (levels : List (List Token.Kind)) :
    FailsAt s t e (binary operand levels) := by
  induction levels with
  | nil => exact ho
  | cons operators tighter ih => exact ih.bind

theorem expression : FailsAt s t e expression :=
  .stepBound fun _ => .stepBound fun m => binary (signed ht _ m) levels

theorem statement : FailsAt s t e statement := by
  refine .stepBound fun n c hc => ?_
  have hexpr : ∃ d, expressionStatement s.stream c = .error e d := (expression ht).bind hc
  have hname : ¬(t.kind = .ident ∧ (s.next (s.ahead c).tail).kind = .assign) := by
    rintro ⟨hident, -⟩
    rcases kind_of_faulty ht with hkind | hkind
    · exact nomatch hident.symm.trans hkind
    · exact nomatch hident.symm.trans hkind
  rw [statementUpTo, peek_bind, hc]
  rcases kind_of_faulty ht with hkind | hkind
  all_goals
    simp only [hkind]
    rwa [nextIsAssignment_bind_ite, hc, if_neg hname]

theorem program : FailsAt s t e program := by
  refine .stepBound fun n => bind fun c hc => ?_
  have heof : t.kind ≠ .eof := by
    rcases kind_of_faulty ht with hkind | hkind
    · rw [hkind]
      decide
    · rw [hkind]
      decide
  rw [statements, nextIs_bind_ite, hc, if_neg heof]
  exact (statement ht).bind hc

end FailsAt

/-- A text that begins with a faulty literal is no program, for what is wrong with the literal. -/
theorem parse_of_faulty {text : String} {t : Token} {e : ParseError} {us : List Token} {last : Token}
    (hts : tokenize text = t :: us ++ [last]) (hlast : last.kind = .eof)
    (hplain : ∀ u ∈ t :: us, u.kind ≠ .eof ∧ u.kind ≠ .invalid) (ht : literal? t = some (.error e)) :
    Program.parse text = .error e := by
  rw [Program.parse, hts]
  exact answer_eq_error.mpr (FailsAt.program (s := ⟨t :: us, last, hlast, hplain⟩) ht rfl)

end Syntax
end TypedImp
