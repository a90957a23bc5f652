import TypedImp.Proofs.Syntax.Written
import TypedImp.Proofs.Typing.ArenaContext

/-! What the checker accepts is well typed. As long as the arena stands for the context of a place, what is checked at
    the place is checked as the rules say, and behind it the arena stands for the next context. -/

namespace TypedImp

namespace Typing
open Checker

/-! ### Contexts -/

namespace Context
variable {Γ : Context} {x : String}

/-- Every variable has a type that values have. -/
def Valued (Γ : Context) : Prop := ∀ x t, Γ.lookup? x = some (.variable t) → t ≠ .void

theorem Valued.block (h : Γ.Valued) : Γ.block.Valued := fun x t hx => h x t (lookup?_block ▸ hx)

theorem Valued.declare (h : Γ.Valued) {symbol : Symbol} (hsymbol : ∀ t, symbol = .variable t → t ≠ .void) :
    (Γ.declare x symbol).Valued := by
  intro y u hy
  by_cases hyx : y = x
  · subst hyx
    rw [lookup?_declare_self] at hy
    exact hsymbol u (Option.some.inj hy)
  · rw [lookup?_declare_of_ne hyx] at hy
    exact h y u hy

theorem Valued.declareAll (h : Γ.Valued) {ds : List (String × Symbol)}
    (hds : ∀ d ∈ ds, ∀ t, d.2 = .variable t → t ≠ .void) : (Γ.declareAll ds).Valued := by
  induction ds generalizing Γ with
  | nil => exact h
  | cons d ds ih =>
    rw [List.forall_mem_cons] at hds
    exact ih (h.declare hds.1) hds.2

theorem Valued.body (h : Γ.Valued) {params : List Param} (hparams : ∀ p ∈ params, p.WellFormed) :
    (Γ.body params).Valued :=
  h.block.declareAll <| List.forall_mem_map.mpr fun p hp _ heq => by
    cases heq
    exact (hparams p hp).ty

theorem Valued.after (h : Γ.Valued) {s : Stmt} (hs : s.WellFormed) : (Γ.after s).Valued := by
  cases hs with
  | varDecl _ ht _ =>
    refine h.declare fun t heq => ?_
    cases heq
    exact ht
  | _ => exact h

/-- The step of a loop declares nothing. -/
theorem after_step {s : Stmt} (h : s.isStep = true) (Γ : Context) : Γ.after s = Γ := by
  cases s with
  | varDecl => cases h
  | _ => rfl

end Context

section
variable {a a' : Arena} {Γ : Context} {result : Option Ty}

theorem Arena.Stands.shows (ha : a.Stands Γ result) (hΓ : Γ.Valued) : a.Shows Γ.names := by
  intro x symbol hx
  rw [ha.resolve?] at hx
  obtain ⟨t, params⟩ := symbol
  cases params with
  | none => exact ⟨by simp [Context.names, hx], hΓ x t hx⟩
  | some params => exact ⟨⟨x, params, t, []⟩, by simp [Context.names, hx], rfl, rfl⟩

theorem Arena.Stands.isInner (ha : a.Stands Γ result) (h : Γ.inner ≠ []) : a.IsInner := by
  refine .inr ?_
  rw [ha.scope]
  obtain ⟨scope, outer, houter⟩ := List.exists_cons_of_ne_nil h
  rw [houter]
  rfl

/-! ### Statements -/

namespace Checker

theorem declare_stands {x : String} {symbol : Symbol} {u : Unit} (ha : a.Stands Γ result)
    (h : declare x symbol a = .ok u a') : a'.Stands (Γ.declare x symbol) result ∧ Γ.Fresh x := by
  obtain ⟨hnew, rfl⟩ := declare_eq_ok h
  exact ⟨ha.add x symbol, ha.has_eq_false_iff.mp hnew⟩

theorem checkVarDecl_admits {x : String} {t : Ty} {init : Option Expr} {u : Unit} (ha : a.Stands Γ result)
    (hΓ : Γ.Valued) (hinit : ∀ e ∈ init, e.WellFormed) (h : checkVarDecl x t init a = .ok u a') :
    a'.Stands (Γ.declare x (.variable t)) result ∧ Admits result Γ (.varDecl x t init) := by
  have hrest : ∀ {u : Unit},
      (declare x (.variable t) >>= fun _ => record (.declareVariable x t)) a = .ok u a' →
      a'.Stands (Γ.declare x (.variable t)) result ∧ Γ.Fresh x := by
    intro u h
    obtain ⟨u₁, a₁, hdeclare, h⟩ := State.bind_eq_ok h
    obtain ⟨hstands, hfresh⟩ := declare_stands ha hdeclare
    cases h
    exact ⟨hstands.record _, hfresh⟩
  cases init with
  | none =>
    obtain ⟨hstands, hfresh⟩ := hrest h
    exact ⟨hstands, .varDecl (by simp) hfresh⟩
  | some e =>
    obtain ⟨u₁, a₁, he, h⟩ := State.bind_eq_ok h
    obtain ⟨rfl, hfits⟩ := checkInitializer_sound (ha.shows hΓ) (hinit e rfl).written he
    obtain ⟨hstands, hfresh⟩ := hrest h
    exact ⟨hstands, .varDecl (by simpa using hfits) hfresh⟩

/-- The body of a block is checked in its own scope. -/
theorem inScope_admits {body : List Stmt} {u : Unit}
    (hbody : ∀ b, checkStatements body a.enter = .ok () b →
      b.Stands (Γ.block.afterAll body) result ∧ AdmitsAll result Γ.block body)
    (h : inScope (checkStatements body) a = .ok u a') : a'.Stands Γ result ∧ AdmitsAll result Γ.block body :=
  inScope_eq_ok h fun b hb =>
    ⟨⟨_, (hbody b hb).1, Γ.within_block.afterAll body⟩, (hbody b hb).2⟩

mutual
/-- A statement that the checker accepts is well typed, unless it declares a function at the top level. -/
theorem checkStatement_admits {s : Stmt} {u : Unit} {a a' : Arena} {Γ : Context} {result : Option Ty}
    (ha : a.Stands Γ result) (hΓ : Γ.Valued) (hs : s.WellFormed) (hinner : Γ.inner ≠ [] ∨ s.function? = none)
    (h : checkStatement s a = .ok u a') : a'.Stands (Γ.after s) result ∧ Admits result Γ s := by
  cases hs with
  | varDecl _ _ hinit =>
    unfold checkStatement at h
    exact checkVarDecl_admits ha hΓ hinit h
  | assign _ he =>
    unfold checkStatement at h
    obtain ⟨rfl, t, hx, hfits⟩ := checkAssignment_sound (ha.shows hΓ) he.written h
    exact ⟨ha, .assign hx hfits⟩
  | print he =>
    unfold checkStatement at h
    obtain ⟨t, hvalue⟩ := State.discard_eq_ok h
    obtain ⟨rfl, ht, hne⟩ := valueType_sound (ha.shows hΓ) he.written hvalue
    exact ⟨ha, .print ht hne⟩
  | input =>
    unfold checkStatement at h
    obtain ⟨t, hresolve⟩ := State.discard_eq_ok h
    obtain ⟨rfl, hx, -⟩ := (ha.shows hΓ).resolveVariable hresolve
    exact ⟨ha, .input hx⟩
  | ifThen hcond hbody =>
    unfold checkStatement at h
    obtain ⟨u₁, a₁, hcheck, h⟩ := State.bind_eq_ok h
    obtain ⟨rfl, hbool⟩ := checkCondition_sound (ha.shows hΓ) hcond.written hcheck
    obtain ⟨hstands, hadmits⟩ :=
      inScope_admits (fun b => checkStatements_admits ha.enter hΓ.block hbody (List.cons_ne_nil _ _)) h
    exact ⟨hstands, .ifThen hbool hadmits⟩
  | ifElse hcond hyes hno =>
    unfold checkStatement at h
    obtain ⟨u₁, a₁, hcheck, h⟩ := State.bind_eq_ok h
    obtain ⟨rfl, hbool⟩ := checkCondition_sound (ha.shows hΓ) hcond.written hcheck
    obtain ⟨u₂, a₂, hfirst, h⟩ := State.bind_eq_ok h
    obtain ⟨hstands₁, hadmits₁⟩ :=
      inScope_admits (fun b => checkStatements_admits ha.enter hΓ.block hyes (List.cons_ne_nil _ _)) hfirst
    obtain ⟨hstands₂, hadmits₂⟩ :=
      inScope_admits (fun b => checkStatements_admits hstands₁.enter hΓ.block hno (List.cons_ne_nil _ _)) h
    exact ⟨hstands₂, .ifElse hbool hadmits₁ hadmits₂⟩
  | whileLoop hcond hbody =>
    unfold checkStatement at h
    obtain ⟨u₁, a₁, hcheck, h⟩ := State.bind_eq_ok h
    obtain ⟨rfl, hbool⟩ := checkCondition_sound (ha.shows hΓ) hcond.written hcheck
    obtain ⟨hstands, hadmits⟩ :=
      inScope_admits (fun b => checkStatements_admits ha.enter hΓ.block hbody (List.cons_ne_nil _ _)) h
    exact ⟨hstands, .whileLoop hbool hadmits⟩
  | @forLoop init step cond body _ hinit hcond hisStep hstep hbody =>
    unfold checkStatement at h
    refine inScope_eq_ok h fun b hb => ?_
    obtain ⟨u₁, a₁, hfirst, hb⟩ := State.bind_eq_ok hb
    obtain ⟨hstands₁, hadmits₁⟩ := checkStatement_admits ha.enter hΓ.block hinit (.inl (List.cons_ne_nil _ _)) hfirst
    have hwithin := Γ.within_block.after init
    have hΓ' := hΓ.block.after hinit
    obtain ⟨u₂, a₂, hcheck, hb⟩ := State.bind_eq_ok hb
    obtain ⟨rfl, hbool⟩ := checkCondition_sound (hstands₁.shows hΓ') hcond.written hcheck
    obtain ⟨u₃, a₃, hsecond, hb⟩ := State.bind_eq_ok hb
    obtain ⟨hstands₃, hadmits₃⟩ := checkStatement_admits hstands₁ hΓ' hstep (.inl hwithin.inner_ne_nil) hsecond
    rw [Context.after_step hisStep] at hstands₃
    obtain ⟨hstands₄, hadmits₄⟩ :=
      inScope_admits (fun b => checkStatements_admits hstands₃.enter hΓ'.block hbody (List.cons_ne_nil _ _)) hb
    exact ⟨⟨_, hstands₄, hwithin⟩, .forLoop rfl hadmits₁ hbool hadmits₃ hadmits₄⟩
  | function hparams hbody =>
    unfold checkStatement at h
    obtain ⟨u₁, a₁, htop, -⟩ := State.bind_eq_ok h
    obtain ⟨-, -, houter⟩ := requireTop_eq_ok htop
    rcases hinner with hinner | hfunction
    · exact absurd (ha.isInner hinner) houter
    · cases hfunction
  | ret hvalue =>
    unfold checkStatement at h
    obtain ⟨rfl, hkeeps⟩ := checkReturn_sound (ha.shows hΓ) (fun e he => (hvalue e he).written) h
    rw [ha.result] at hkeeps
    refine ⟨ha, ?_⟩
    cases hkeeps with
    | retNone hresult => exact .retNone hresult
    | retSome hresult hne hfits => exact .retSome hresult hne hfits
  | expr he =>
    unfold checkStatement at h
    obtain ⟨t, htype⟩ := State.discard_eq_ok h
    obtain ⟨rfl, ht⟩ := typeOf_sound (ha.shows hΓ) he.written htype
    exact ⟨ha, .expr ht⟩

theorem checkStatements_admits {ss : List Stmt} {u : Unit} {a a' : Arena} {Γ : Context} {result : Option Ty}
    (ha : a.Stands Γ result) (hΓ : Γ.Valued) (hss : ∀ s ∈ ss, s.WellFormed) (hinner : Γ.inner ≠ [])
    (h : checkStatements ss a = .ok u a') : a'.Stands (Γ.afterAll ss) result ∧ AdmitsAll result Γ ss := by
  match ss with
  | [] =>
    unfold checkStatements at h
    cases h
    exact ⟨ha, .nil⟩
  | s :: ss =>
    unfold checkStatements at h
    rw [List.forall_mem_cons] at hss
    obtain ⟨u₁, a₁, hfirst, h⟩ := State.bind_eq_ok h
    obtain ⟨hstands₁, hadmits₁⟩ := checkStatement_admits ha hΓ hss.1 (.inl hinner) hfirst
    obtain ⟨hstands₂, hadmits₂⟩ :=
      checkStatements_admits hstands₁ (hΓ.after hss.1) hss.2 (Context.inner_after_ne_nil hinner s) h
    exact ⟨hstands₂, .cons hadmits₁ hadmits₂⟩
end

theorem declareParameters_stands {x : String} {params : List Param} {u : Unit} (ha : a.Stands Γ result)
    (h : declareParameters x params a = .ok u a') :
    a'.Stands (Γ.declareAll (params.map fun p => (p.name, .variable p.ty))) result ∧
      Γ.AllFresh (params.map Param.name) := by
  induction params generalizing a Γ with
  | nil =>
    cases h
    exact ⟨ha, .nil, List.forall_mem_nil _⟩
  | cons p params ih =>
    obtain ⟨b, a₁, hget, h⟩ := State.bind_eq_ok h
    cases hget
    split at h
    · cases h
    · obtain ⟨u₁, a₁, hdeclare, h⟩ := State.bind_eq_ok h
      obtain ⟨hstands, hfresh⟩ := declare_stands ha hdeclare
      obtain ⟨hstands', hall⟩ := ih hstands h
      exact ⟨hstands', Context.allFresh_cons.mpr ⟨hfresh, hall⟩⟩

/-- A function that the checker accepts at the top level is well typed. -/
theorem checkFunction_admits {f : Function} {u : Unit} (ha : a.Stands Γ none) (hΓ : Γ.Valued)
    (hs : (Stmt.function f.name f.params f.result f.body).WellFormed)
    (h : checkStatement (.function f.name f.params f.result f.body) a = .ok u a') :
    a'.Stands Γ none ∧ AdmitsFunction Γ f := by
  cases hs with
  | function _ hparams hbody =>
    unfold checkStatement at h
    obtain ⟨u₁, a₁, htop, h⟩ := State.bind_eq_ok h
    obtain ⟨rfl, -, -⟩ := requireTop_eq_ok htop
    refine inScope_eq_ok h fun b hb => ?_
    obtain ⟨u₂, a₂, hdeclare, hb⟩ := State.bind_eq_ok hb
    obtain ⟨hstands, hfresh⟩ := declareParameters_stands ha.enter hdeclare
    obtain ⟨a₃, hcheck, rfl⟩ := withResult_eq_ok hb
    have hwithin := Γ.within_block.declareAll (f.params.map fun p => (p.name, .variable p.ty))
    have hbegin : ({ a₂ with result := some f.result } : Arena).Stands (Γ.body f.params) (some f.result) :=
      ⟨hstands.scopes, hstands.current, rfl⟩
    obtain ⟨hstands', hadmits⟩ :=
      checkStatements_admits hbegin (hΓ.body hparams) hbody hwithin.inner_ne_nil hcheck
    exact ⟨⟨_, ⟨hstands'.scopes, hstands'.current, rfl⟩, hwithin.afterAll f.body⟩, hfresh.1, hadmits⟩

theorem checkTop_admits {ss : List Stmt} {u : Unit} (ha : a.Stands Γ none) (hΓ : Γ.Valued)
    (hss : ∀ s ∈ ss, s.WellFormed) (h : checkStatements ss a = .ok u a') : AdmitsTop Γ ss := by
  induction ss generalizing a Γ with
  | nil => exact .nil
  | cons s ss ih =>
    unfold checkStatements at h
    rw [List.forall_mem_cons] at hss
    obtain ⟨u₁, a₁, hfirst, hrest⟩ := State.bind_eq_ok h
    cases hfunction : s.function? with
    | none =>
      obtain ⟨hstands, hadmits⟩ := checkStatement_admits ha hΓ hss.1 (.inr hfunction) hfirst
      exact .action hadmits (ih hstands (hΓ.after hss.1) hss.2 hrest)
    | some f =>
      cases s with
      | function x params t body =>
        obtain ⟨hstands, hadmits⟩ := checkFunction_admits (f := ⟨x, params, t, body⟩) ha hΓ hss.1 hfirst
        exact .function hadmits (ih hstands hΓ hss.2 hrest)
      | _ => cases hfunction

theorem declareFunctions_stands {fs : List Function} {u : Unit} (ha : a.Stands Γ result)
    (h : declareFunctions fs a = .ok u a') :
    a'.Stands (Γ.declareAll (fs.map fun f => (f.name, .function f.params f.result))) result ∧
      Γ.AllFresh (fs.map Function.name) := by
  induction fs generalizing a Γ with
  | nil =>
    cases h
    exact ⟨ha, .nil, List.forall_mem_nil _⟩
  | cons f fs ih =>
    obtain ⟨u₁, a₁, hdeclare, h⟩ := State.bind_eq_ok h
    obtain ⟨hstands, hfresh⟩ := declare_stands ha hdeclare
    obtain ⟨u₂, a₂, hrecord, h⟩ := State.bind_eq_ok h
    cases hrecord
    obtain ⟨hstands', hall⟩ := ih (hstands.record _) h
    exact ⟨hstands', Context.allFresh_cons.mpr ⟨hfresh, hall⟩⟩

theorem stands_start : Arena.start.Stands ⟨[], []⟩ none := ⟨rfl, rfl, rfl⟩

theorem valued_context (p : Program) : p.context.Valued := by
  have hempty : Context.Valued ⟨[], []⟩ := fun _ _ hx => nomatch hx
  exact hempty.declareAll (List.forall_mem_map.mpr fun f _ _ heq => nomatch heq)

/-- A well-formed program that the checker accepts is well typed. -/
theorem checkProgram_wellTyped {p : Program} (hp : p.WellFormed) {u : Unit}
    (h : checkProgram p Arena.start = .ok u a') : p.WellTyped := by
  obtain ⟨u₁, a₁, hdeclare, hbody⟩ := State.bind_eq_ok h
  obtain ⟨hstands, hfresh⟩ := declareFunctions_stands stands_start hdeclare
  exact ⟨hfresh.1, checkTop_admits hstands (valued_context p) hp hbody⟩

end Checker
end
end Typing
end TypedImp
