import TypedImp.Proofs.Typing.Scoping

/-! Where the bodies of functions stand. The home of a function is the context in which its body begins: that of its
    declaration, with the parameters in a block around the body. -/

namespace TypedImp
namespace Typing

/-! ### What contexts declare -/

namespace Context
variable {Γ : Context} {x y : String} {symbol : Symbol}

/-- The name stands for a variable of the top level: no block around the place declares it. -/
def IsGlobal (Γ : Context) (x : String) : Prop :=
  (∀ scope ∈ Γ.inner, scope.get? x = none) ∧ ∃ t, Γ.top.get? x = some (.variable t)

theorem lookup?_declare {s : Symbol} (h : (Γ.declare x symbol).lookup? y = some s) :
    Γ.lookup? y = some s ∨ (y, s) = (x, symbol) := by
  by_cases hyx : y = x
  · subst hyx
    rw [lookup?_declare_self] at h
    exact .inr (by rw [Option.some.inj h])
  · exact .inl (lookup?_declare_of_ne hyx ▸ h)

theorem lookup?_declareAll {ds : List (String × Symbol)} (h : (Γ.declareAll ds).lookup? y = some symbol) :
    Γ.lookup? y = some symbol ∨ (y, symbol) ∈ ds := by
  induction ds generalizing Γ with
  | nil => exact .inl h
  | cons d ds ih =>
    rcases ih h with h | h
    · rcases lookup?_declare h with h | h
      · exact .inl h
      · exact .inr (h ▸ List.mem_cons_self)
    · exact .inr (List.mem_cons_of_mem d h)

/-- Declarations in a block add their names to its scope. -/
theorem inner_declareAll {scope : Assoc Symbol} {outer : List (Assoc Symbol)} (h : Γ.inner = scope :: outer)
    (ds : List (String × Symbol)) :
    ∃ scope', (Γ.declareAll ds).inner = scope' :: outer ∧
      ∀ x, Assoc.has scope' x = true → scope.has x = true ∨ x ∈ ds.map Prod.fst := by
  induction ds generalizing Γ scope with
  | nil => exact ⟨scope, h, fun x hx => .inl hx⟩
  | cons d ds ih =>
    have hdeclare : (Γ.declare d.1 d.2).inner = Assoc.insert scope d.1 d.2 :: outer := by
      rw [declare, h]
    obtain ⟨scope', hscope', hnames⟩ := ih hdeclare
    refine ⟨scope', hscope', fun x hx => ?_⟩
    rcases hnames x hx with hx | hx
    · rw [Assoc.has_insert, Bool.or_eq_true, beq_iff_eq] at hx
      rcases hx with rfl | hx
      · exact .inr List.mem_cons_self
      · exact .inl hx
    · exact .inr (List.mem_cons_of_mem d.1 hx)

/-! ### Functions that can be called -/

/-- The functions that can be called are those of the program. -/
def Calls (Γ : Context) (p : Program) : Prop :=
  ∀ x t params, Γ.lookup? x = some ⟨t, some params⟩ → ∃ f ∈ p.functions, f.name = x

variable {p : Program}

theorem Calls.exists_function (h : Γ.Calls p) {g : Function} (hg : Γ.names.function? x = some g) :
    ∃ f ∈ p.functions, f.name = x := by
  unfold names at hg
  dsimp only at hg
  split at hg
  · next t params hx => exact h x t params hx
  · cases hg

theorem Calls.block (h : Γ.Calls p) : Γ.block.Calls p := fun x t params hx => h x t params (lookup?_block ▸ hx)

theorem Calls.after (h : Γ.Calls p) (s : Stmt) : (Γ.after s).Calls p := by
  cases s with
  | varDecl x t init =>
    intro y u params hy
    rcases lookup?_declare hy with hy | hy
    · exact h y u params hy
    · cases hy
  | _ => exact h

theorem Calls.body (h : Γ.Calls p) (params : List Param) : (Γ.body params).Calls p := by
  intro y u params' hy
  rcases lookup?_declareAll hy with hy | hy
  · exact h.block y u params' hy
  · obtain ⟨q, -, hq⟩ := List.mem_map.mp hy
    cases hq

/-- Where a program begins, only its functions are declared. -/
theorem mem_of_lookup?_context (h : p.context.lookup? x = some symbol) :
    ∃ f ∈ p.functions, f.name = x ∧ symbol = .function f.params f.result := by
  rcases lookup?_declareAll h with h | h
  · cases h
  · obtain ⟨f, hf, hd⟩ := List.mem_map.mp h
    cases hd
    exact ⟨f, hf, rfl, rfl⟩

theorem calls_context (p : Program) : p.context.Calls p := by
  intro x t params hx
  obtain ⟨f, hf, hname, -⟩ := mem_of_lookup?_context hx
  exact ⟨f, hf, hname⟩

end Context

/-! ### Homes -/

/-- Where the bodies of the functions begin that statements of the top level declare. -/
def homes : Context → List Stmt → Assoc Context
  | _, [] => []
  | Γ, s :: ss => (s.function?.toList.map fun f => (f.name, Γ.body f.params)) ++ homes (Γ.after s) ss

end Typing

/-- Where the body of a function begins. -/
def Program.home (p : Program) (f : String) : Typing.Context :=
  ((Typing.homes p.context p.body).get? f).getD p.context

namespace Typing

/-- In its home the body of a function is well typed, and its blocks declare nothing but the parameters. -/
structure AtHome (p : Program) (Γ : Context) (f : Function) : Prop where
  calls : Γ.Calls p
  body : AdmitsAll (some f.result) Γ f.body
  inner : ∀ scope ∈ Γ.inner, ∀ x, scope.has x = true → x ∈ f.params.map Param.name

theorem atHome_body {p : Program} {Γ : Context} {f : Function} (htop : Γ.inner = []) (hΓ : Γ.Calls p)
    (hf : AdmitsFunction Γ f) : AtHome p (Γ.body f.params) f := by
  refine ⟨hΓ.body f.params, hf.body, ?_⟩
  have hblock : Γ.block.inner = [] :: [] := by rw [Context.block, htop]
  obtain ⟨scope, hscope, hnames⟩ := Context.inner_declareAll hblock
    (f.params.map fun q => (q.name, .variable q.ty))
  rw [Context.body, hscope]
  refine List.forall_mem_singleton.mpr fun x hx => ?_
  have hmem := (hnames x hx).resolve_left nofun
  rwa [List.map_map] at hmem

theorem Admits.function?_eq_none {Γ : Context} {result : Option Ty} {s : Stmt} (h : Admits result Γ s) :
    s.function? = none := by
  cases h <;> rfl

theorem AdmitsTop.atHome {p : Program} {Γ : Context} {ss : List Stmt} (h : AdmitsTop Γ ss) (htop : Γ.inner = [])
    (hΓ : Γ.Calls p) (hnames : ((ss.filterMap Stmt.function?).map Function.name).Nodup) {f : Function}
    (hf : f ∈ ss.filterMap Stmt.function?) :
    ∃ Γ', (homes Γ ss).get? f.name = some Γ' ∧ AtHome p Γ' f := by
  induction h with
  | nil => cases hf
  | @function Γ x params result body ss hadmits _ ih =>
    have hhomes : homes Γ (.function x params result body :: ss) = (x, Γ.body params) :: homes Γ ss := rfl
    have hfunctions : (Stmt.function x params result body :: ss).filterMap Stmt.function? =
      ⟨x, params, result, body⟩ :: ss.filterMap Stmt.function? := rfl
    rw [hfunctions, List.map_cons, List.nodup_cons] at hnames
    rw [hfunctions] at hf
    rw [hhomes, Assoc.get?, List.lookup_cons]
    rcases List.mem_cons.mp hf with rfl | hf
    · rw [beq_self_eq_true]
      exact ⟨_, rfl, atHome_body htop hΓ hadmits⟩
    · have hne : f.name ≠ x := fun heq => hnames.1 (List.mem_map.mpr ⟨f, hf, heq⟩)
      rw [beq_false_of_ne hne]
      exact ih htop hΓ hnames.2 hf
  | @action Γ s ss hs _ ih =>
    have hfunction := hs.function?_eq_none
    rw [List.filterMap_cons_none hfunction] at hnames hf
    rw [homes, hfunction]
    exact ih (Context.inner_after_nil htop s) (hΓ.after s) hnames hf

/-- The statements of the top level that are no functions follow one another in its context. -/
theorem AdmitsTop.actions {Γ : Context} {ss : List Stmt} (h : AdmitsTop Γ ss) :
    AdmitsAll none Γ (ss.filter fun s => s.function?.isNone) := by
  induction h with
  | nil => exact .nil
  | function _ _ ih => exact ih
  | action hs _ ih =>
    rw [List.filter_cons_of_pos (by rw [hs.function?_eq_none]; rfl)]
    exact .cons hs ih

end Typing

open Typing

theorem Program.inner_context (p : Program) : p.context.inner = [] := Context.inner_declareAll_nil rfl _

/-- The functions of a well-typed program are at home where the program says. -/
theorem Program.WellTyped.atHome {p : Program} (hp : p.WellTyped) {f : Function} (hf : f ∈ p.functions) :
    AtHome p (p.home f.name) f := by
  obtain ⟨Γ, hhome, hΓ⟩ := hp.body.atHome p.inner_context (Context.calls_context p) hp.distinct hf
  rwa [Program.home, hhome, Option.getD_some]

end TypedImp
