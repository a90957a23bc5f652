import TypedImp.Proofs.FrontEnd
import TypedImp.Proofs.Program.Tree
import TypedImp.Proofs.Syntax.Written

/-! Programs that tokens derive are regular, whatever their names are. So is every program that one of the front ends
    finds, the automaton included, which takes some reserved words for names. -/

namespace TypedImp
namespace Syntax
open Grammar (Level)

/-! ### Expressions -/

mutual
theorem Chain.regular {ls : List Level} {ts : List Token} {e : Expr} : Chain ls ts e → e.Regular
  | .signed h => h.regular
  | .operand h => h.regular
  | .operator hl _ hr => .binary (by rw [BinaryOp.text_ofText]) hl.regular hr.regular

theorem Signed.regular {ts : List Token} {e : Expr} : Signed ts e → e.Regular
  | .primary h => h.regular
  | .sign _ h => .unary (by rw [UnaryOp.text_ofText]) h.regular

theorem Primary.regular {ts : List Token} {e : Expr} : Primary ts e → e.Regular
  | .integer _ _ hmax => .literal (.int (integer_inRange hmax)) nofun
  | .float _ _ _ _ => .literal .float (Decimal.decode_scientific_ne_nan false _ _)
  | .boolean _ => .literal .bool nofun
  | .char _ => .literal .char nofun
  | .string _ => .literal .string nofun
  | .var _ => .var _
  | .call _ _ h _ => .call _ h.regular
  | .parens _ h _ => h.regular

theorem Arguments.regular {ts : List Token} {es : List Expr} : Arguments ts es → ∀ e ∈ es, e.Regular
  | .none => List.forall_mem_nil _
  | .some h h' => List.forall_mem_cons.mpr ⟨h.regular, h'.regular⟩

theorem MoreArguments.regular {ts : List Token} {es : List Expr} : MoreArguments ts es → ∀ e ∈ es, e.Regular
  | .none => List.forall_mem_nil _
  | .some _ h h' => List.forall_mem_cons.mpr ⟨h.regular, h'.regular⟩
end

/-! ### Statements -/

section
variable {ts : List Token} {s : Stmt}

theorem VarDecl.regular (h : VarDecl ts s) : s.Regular := by
  cases h with
  | plain _ _ _ htype _ => exact .varDecl _ htype.2 nofun
  | init _ _ _ htype _ he _ => exact .varDecl _ htype.2 (by simpa using he.regular)

theorem Assign.regular (h : Assign ts s) : s.Regular := by
  cases h with
  | mk _ _ he => exact .assign _ he.regular

theorem ForInit.regular (h : ForInit ts s) : s.Regular := by
  cases h with
  | decl h => exact h.regular
  | assign h _ => exact h.regular

theorem ForStep.regular (h : ForStep ts s) : s.Regular := by
  cases h with
  | assign h | assignClosed h _ => exact h.regular
  | expr h | exprClosed h _ => exact .expr h.regular

theorem Condition.regular {k : Token.Kind} {e : Expr} (h : Condition k ts e) : e.Regular := by
  cases h with
  | mk _ _ he _ => exact he.regular

end

theorem Parameters.ne_void {ts : List Token} {ps : List Param} (h : Parameters ts ps) : ∀ p ∈ ps, p.ty ≠ .void := by
  induction h with
  | one h =>
    cases h with
    | mk _ _ htype => simpa using htype.2
  | more h _ _ ih =>
    cases h with
    | mk _ _ htype => exact List.forall_mem_cons.mpr ⟨htype.2, ih⟩

theorem ParameterList.ne_void {ts : List Token} {ps : List Param} (h : ParameterList ts ps) :
    ∀ p ∈ ps, p.ty ≠ .void := by
  cases h with
  | none => simp
  | some h => exact h.ne_void

mutual
theorem Statement.regular {ts : List Token} {s : Stmt} : Statement ts s → s.Regular
  | .varDecl h => h.regular
  | .assign h _ => h.regular
  | .print h _ => .print h.regular
  | .input _ _ _ _ _ => .input _
  | .ifThen h hbody => .ifThen h.regular hbody.regular
  | .ifElse h hyes _ hno => .ifElse h.regular hyes.regular hno.regular
  | .whileLoop h hbody => .whileLoop h.regular hbody.regular
  | .forLoop _ _ hinit hcond _ hstep _ hbody => .forLoop hinit.regular hcond.regular hstep.regular hbody.regular
  | .function _ _ _ hparams _ _ _ hbody => .function _ _ hparams.ne_void hbody.regular
  | .retNone _ _ => .ret nofun
  | .retSome _ h _ => .ret (by simpa using h.regular)
  | .expr h _ => .expr h.regular

theorem Block.regular {ts : List Token} {ss : List Stmt} : Block ts ss → ∀ s ∈ ss, s.Regular
  | .mk _ h _ => h.regular

theorem Statements.regular {ts : List Token} {ss : List Stmt} : Statements ts ss → ∀ s ∈ ss, s.Regular
  | .none => List.forall_mem_nil _
  | .some h h' => List.forall_mem_cons.mpr ⟨h.regular, h'.regular⟩
end

theorem Derives.exists_statements {ts : List Token} {p : Program} (h : Derives ts p) : ∃ us, Statements us p.body := by
  obtain ⟨hstatements, -⟩ := h
  exact ⟨_, hstatements⟩

end Syntax

/-! ### Front ends -/

namespace FrontEnd
open Syntax

/-- Some tokens derive the program that a front end finds. -/
theorem exists_statements {f : FrontEnd} {text : String} {p : Program} (h : f.parse text = .ok p) :
    ∃ ts, Statements ts p.body := by
  cases f with
  | descent => exact (derives_of_parse h).exists_statements
  | grammar =>
    change Grammar.programOf text = .ok p at h
    unfold Grammar.programOf at h
    split at h
    · cases h
    next tree htree =>
    obtain ⟨ts, hwrites, -⟩ := Grammar.exists_tokens Grammar.automaton_isSafe (Grammar.reads_of_parse htree)
    exact ⟨ts, tree.means h hwrites⟩

theorem regular_of_parse {f : FrontEnd} {text : String} {p : Program} (h : f.parse text = .ok p) : p.Regular := by
  obtain ⟨ts, hstatements⟩ := exists_statements h
  exact hstatements.regular

end FrontEnd
end TypedImp
