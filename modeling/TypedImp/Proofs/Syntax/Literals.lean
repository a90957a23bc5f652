import TypedImp.Proofs.Program.Literals
import TypedImp.Proofs.Syntax.WellFormed
import TypedImp.Proofs.Value.Proper

/-! The literals that a text can write. Every literal of a well-formed program is a proper value: an integer that
    is too large is not read, and a character literal holds one character. -/

namespace TypedImp

/-- A literal that a text can spell is a proper value. -/
theorem Value.IsLiteral.proper {v : Value} (h : v.IsLiteral) : v.Proper := by
  cases h with
  | int hmin hmax => exact ⟨by omega, by simpa [Word.maximum] using hmax⟩
  | char _ _ => exact String.length_singleton
  | float _ | bool | string _ => trivial

theorem Expr.WellFormed.literals {e : Expr} (h : e.WellFormed) : ∀ v ∈ e.literals, v.Proper := by
  induction h with
  | literal hv => exact List.forall_mem_singleton.mpr hv.proper
  | var => exact List.forall_mem_nil _
  | unary _ _ ih => exact ih
  | binary _ _ _ ihl ihr => exact List.forall_mem_append.mpr ⟨ihl, ihr⟩
  | call _ _ ih => exact forall_literalsAll ih

theorem Stmt.WellFormed.literals {s : Stmt} (h : s.WellFormed) : ∀ v ∈ s.literals, v.Proper := by
  induction h with
  | @varDecl x t init _ _ hinit =>
    cases init with
    | none => exact List.forall_mem_nil _
    | some e => exact (hinit e rfl).literals
  | assign _ he => exact he.literals
  | print he => exact he.literals
  | input => exact List.forall_mem_nil _
  | ifThen hcond _ ih => exact List.forall_mem_append.mpr ⟨hcond.literals, forall_literalsAll ih⟩
  | ifElse hcond _ _ ihyes ihno =>
    refine List.forall_mem_append.mpr ⟨hcond.literals, ?_⟩
    exact List.forall_mem_append.mpr ⟨forall_literalsAll ihyes, forall_literalsAll ihno⟩
  | whileLoop hcond _ ih => exact List.forall_mem_append.mpr ⟨hcond.literals, forall_literalsAll ih⟩
  | forLoop _ _ hcond _ _ _ ihinit ihstep ih =>
    refine List.forall_mem_append.mpr ⟨ihinit, List.forall_mem_append.mpr ⟨hcond.literals, ?_⟩⟩
    exact List.forall_mem_append.mpr ⟨ihstep, forall_literalsAll ih⟩
  | function _ _ _ ih => exact forall_literalsAll ih
  | @ret value hvalue =>
    cases value with
    | none => exact List.forall_mem_nil _
    | some e => exact (hvalue e rfl).literals
  | expr he => exact he.literals

/-- The literals of a text that is a program are proper values. -/
theorem Syntax.literals_proper {text : String} {p : Program} (h : Program.parse text = .ok p) :
    ∀ v ∈ p.literals, v.Proper := Stmt.forall_literalsAll fun s hs => (wellFormed_of_parse h s hs).literals

end TypedImp
