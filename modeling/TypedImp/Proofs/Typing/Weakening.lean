import TypedImp.Proofs.Typing.Accepted
import TypedImp.Proofs.Typing.Composed

/-! Checks in a larger context. Where more is declared at the top level, everything that is found is found as before:
    an expression keeps its type, and what a statement declares in its block is new there in both contexts. At the top
    level itself a declaration may collide with what else is there; so statements need the same names there, and only
    functions, whose bodies are blocks, do not. -/

namespace TypedImp
namespace Typing

/-! ### Contexts -/

namespace Context
variable {Γ Δ : Context} {x : String} {symbol : Symbol}

/-- The blocks are the same, and the top level of `Δ` has all that the one of `Γ` has. -/
structure IsPart (Γ Δ : Context) : Prop where
  inner : Δ.inner = Γ.inner
  top : ∀ x symbol, Γ.top.get? x = some symbol → Δ.top.get? x = some symbol

/-- A place at the top level has the same names in both contexts. -/
structure Suits (Γ Δ : Context) : Prop extends Γ.IsPart Δ where
  absent : Γ.inner = [] → ∀ x, Γ.top.get? x = none → Δ.top.get? x = none

theorem IsPart.lookup? (h : Γ.IsPart Δ) (hx : Γ.lookup? x = some symbol) : Δ.lookup? x = some symbol := by
  unfold Context.lookup? at hx ⊢
  rw [h.inner]
  cases hinner : Γ.inner.findSome? fun scope => scope.get? x with
  | some found => rwa [hinner] at hx
  | none =>
    rw [hinner] at hx
    exact h.top x symbol hx

theorem IsPart.block (h : Γ.IsPart Δ) : Γ.block.Suits Δ.block where
  inner := congrArg ([] :: ·) h.inner
  top := h.top
  absent hinner := nomatch hinner

theorem Suits.fresh (h : Γ.Suits Δ) : Γ.Fresh x → Δ.Fresh x := by
  unfold Fresh current
  rw [h.inner]
  cases hinner : Γ.inner with
  | nil => exact h.absent hinner x
  | cons scope outer => exact id

theorem Suits.declare (h : Γ.Suits Δ) (x : String) (symbol : Symbol) : (Γ.declare x symbol).Suits (Δ.declare x symbol) := by
  obtain ⟨⟨hinner, htop⟩, habsent⟩ := h
  obtain ⟨inner, top⟩ := Γ
  obtain ⟨_, top'⟩ := Δ
  cases hinner
  cases inner with
  | cons scope outer => exact ⟨⟨rfl, htop⟩, nofun⟩
  | nil =>
    refine ⟨⟨rfl, fun y s hy => ?_⟩, fun _ y hy => ?_⟩
    · change (Assoc.insert top x symbol).get? y = some s at hy
      change (Assoc.insert top' x symbol).get? y = some s
      by_cases hyx : y = x
      · subst hyx
        rwa [Assoc.get?_insert_self] at hy ⊢
      · rw [Assoc.get?_insert_of_ne _ _ hyx] at hy ⊢
        exact htop y s hy
    · change (Assoc.insert top x symbol).get? y = none at hy
      change (Assoc.insert top' x symbol).get? y = none
      by_cases hyx : y = x
      · subst hyx
        rw [Assoc.get?_insert_self] at hy
        cases hy
      · rw [Assoc.get?_insert_of_ne _ _ hyx] at hy ⊢
        exact habsent rfl y hy

theorem Suits.declareAll (h : Γ.Suits Δ) (ds : List (String × Symbol)) : (Γ.declareAll ds).Suits (Δ.declareAll ds) := by
  induction ds generalizing Γ Δ with
  | nil => exact h
  | cons d ds ih => exact ih (h.declare d.1 d.2)

theorem allFresh_append {ds : List (String × Symbol)} {xs : List String} :
    Γ.AllFresh (ds.map Prod.fst ++ xs) ↔ Γ.AllFresh (ds.map Prod.fst) ∧ (Γ.declareAll ds).AllFresh xs := by
  induction ds generalizing Γ with
  | nil =>
    have hnil : Γ.AllFresh [] := ⟨.nil, List.forall_mem_nil _⟩
    exact ⟨fun h => ⟨hnil, h⟩, And.right⟩
  | cons d ds ih =>
    have hcons (ys : List String) : Γ.AllFresh (d.1 :: ys) ↔ Γ.Fresh d.1 ∧ (Γ.declare d.1 d.2).AllFresh ys := allFresh_cons
    rw [List.map_cons, List.cons_append, hcons, hcons, ih, and_assoc]
    rfl

/-- What is declared anew hides nothing of the top level. -/
theorem isPart_declareAll (hinner : Γ.inner = []) {ds : List (String × Symbol)} (h : Γ.AllFresh (ds.map Prod.fst)) :
    Γ.IsPart (Γ.declareAll ds) := by
  refine ⟨by rw [hinner, inner_declareAll_nil hinner], fun x symbol hx => ?_⟩
  induction ds generalizing Γ with
  | nil => exact hx
  | cons d ds ih =>
    obtain ⟨hfresh, hrest⟩ : Γ.Fresh d.1 ∧ (Γ.declare d.1 d.2).AllFresh (ds.map Prod.fst) := allFresh_cons.mp h
    refine ih (inner_declare_nil hinner) hrest ?_
    obtain ⟨inner, top⟩ := Γ
    cases hinner
    have hne : x ≠ d.1 := by
      rintro rfl
      exact nomatch hx.symm.trans hfresh
    exact (Assoc.get?_insert_of_ne _ _ hne).trans hx

theorem IsPart.trans {Θ : Context} (h : Γ.IsPart Δ) (h' : Δ.IsPart Θ) : Γ.IsPart Θ :=
  ⟨h'.inner.trans h.inner, fun x symbol hx => h'.top x symbol (h.top x symbol hx)⟩

end Context

open Context

namespace Checker
variable {α β : Type} {result : Option Ty} {Γ Δ : Context} {a b a' : Arena}

/-! ### Checks that declare nothing -/

/-- What the check finds in a context it finds in every larger one, and it leaves the arena as it is. -/
def Reads (c : Checker α) : Prop :=
  ∀ ⦃result Γ Δ a b x a'⦄, Γ.IsPart Δ → a.Stands Γ result → b.Stands Δ result → c a = .ok x a' → a' = a ∧ c b = .ok x b

namespace Reads
variable {c : Checker α}

theorem pure (x : α) : Reads (pure x : Checker α) := by
  rintro _ _ _ _ _ _ _ _ _ _ ⟨⟩
  exact ⟨rfl, rfl⟩

theorem throw (e : Error) : Reads (throw e : Checker α) := fun _ _ _ _ _ _ _ _ _ _ h => nomatch h

theorem bind {k : α → Checker β} (hc : Reads c) (hk : ∀ x, Reads (k x)) : Reads (c >>= k) := by
  intro result Γ Δ a b y a' hΓ ha hb h
  obtain ⟨x, a₁, hx, hy⟩ := State.bind_eq_ok h
  obtain ⟨rfl, hx'⟩ := hc hΓ ha hb hx
  obtain ⟨rfl, hy'⟩ := hk x hΓ ha hb hy
  exact ⟨rfl, (State.bind_of_ok hx').trans hy'⟩

theorem resolve (x : String) : Reads (resolve x) := by
  intro result Γ Δ a b symbol a' hΓ ha hb h
  unfold Checker.resolve at h ⊢
  rw [State.get_bind, ha.resolve?] at h
  rw [State.get_bind, hb.resolve?]
  cases hx : Γ.lookup? x with
  | none =>
    rw [hx] at h
    cases h
  | some symbol' =>
    rw [hx] at h
    rw [hΓ.lookup? hx]
    cases h
    exact ⟨rfl, rfl⟩

theorem composes : Composes Reads := ⟨pure, throw, bind, resolve⟩

theorem checkReturn (value : Option Expr) : Reads (checkReturn value) := by
  intro result Γ Δ a b u a' hΓ ha hb h
  have hresult : b.result = a.result := hb.result.trans ha.result.symm
  unfold Checker.checkReturn at h ⊢
  rw [State.get_bind] at h ⊢
  rw [hresult]
  revert h
  cases a.result with
  | none => exact throw _ hΓ ha hb
  | some t =>
    cases value with
    | none => exact Composes.ite (throw _) (pure _) hΓ ha hb
    | some e =>
      refine composes.refusal _ ?_ hΓ ha hb
      exact (composes.valueType e).bind fun _ => Composes.ite (throw _) (pure _)

theorem requireTop (x : String) : Reads (requireTop x) := by
  intro result Γ Δ a b u a' hΓ ha hb h
  have hparent : b.scope.parent = a.scope.parent := by rw [ha.scope, hb.scope, hΓ.inner]
  have hresult : b.result = a.result := hb.result.trans ha.result.symm
  unfold Checker.requireTop at h ⊢
  rw [State.get_bind] at h ⊢
  rw [hresult, hparent]
  revert h
  exact Composes.ite (throw _) (pure _) hΓ ha hb

end Reads

/-! ### Checks that declare names -/

/-- The check succeeds in every larger context in which the top level has the same names, and declares there what it
    declares here. What it declares is new. -/
def Transfers (result : Option Ty) (c : Checker α) : Prop :=
  ∀ ⦃Γ Δ a b x a'⦄, Γ.Suits Δ → a.Stands Γ result → b.Stands Δ result → c a = .ok x a' →
    ∃ ds b', c b = .ok x b' ∧ a'.Stands (Γ.declareAll ds) result ∧ b'.Stands (Δ.declareAll ds) result ∧
      Γ.AllFresh (ds.map Prod.fst)

theorem Reads.transfers {c : Checker α} (h : Reads c) : Transfers result c := by
  intro Γ Δ a b x a' hΓ ha hb hx
  obtain ⟨rfl, hx'⟩ := h hΓ.toIsPart ha hb hx
  exact ⟨[], b, hx', ha, hb, .nil, List.forall_mem_nil _⟩

/-- A block is checked in every larger context, whatever else there is at the top level. -/
theorem inScope_transfers {c : Checker Unit} (hc : Transfers result c) (hΓ : Γ.IsPart Δ) (ha : a.Stands Γ result)
    (hb : b.Stands Δ result) {u : Unit} (h : inScope c a = .ok u a') :
    ∃ b', inScope c b = .ok () b' ∧ a'.Stands Γ result ∧ b'.Stands Δ result := by
  obtain ⟨hstands, b', hb', hstands'⟩ : a'.Stands Γ result ∧ ∃ b', inScope c b = .ok () b' ∧ b'.Stands Δ result := by
    refine inScope_eq_ok h fun a₁ ha₁ => ?_
    obtain ⟨ds, b₁, hb₁, hstands, hstands', -⟩ := hc hΓ.block ha.enter hb.enter ha₁
    exact ⟨⟨_, hstands, Γ.within_block.declareAll ds⟩, inScope_of_ok hb₁ hstands' (Δ.within_block.declareAll ds)⟩
  exact ⟨b', hb', hstands, hstands'⟩

namespace Transfers
variable {c : Checker α}

theorem bind {k : α → Checker β} (hc : Transfers result c) (hk : ∀ x, Transfers result (k x)) :
    Transfers result (c >>= k) := by
  intro Γ Δ a b y a' hΓ ha hb h
  obtain ⟨x, a₁, hx, hy⟩ := State.bind_eq_ok h
  obtain ⟨ds, b₁, hx', ha₁, hb₁, hfresh⟩ := hc hΓ ha hb hx
  obtain ⟨es, b', hy', ha', hb', hfresh'⟩ := hk x (hΓ.declareAll ds) ha₁ hb₁ hy
  refine ⟨ds ++ es, b', (State.bind_of_ok hx').trans hy', ?_, ?_, ?_⟩
  · rwa [declareAll, List.foldl_append]
  · rwa [declareAll, List.foldl_append]
  · rw [List.map_append]
    exact allFresh_append.mpr ⟨hfresh, hfresh'⟩

theorem record (e : Event) : Transfers result (record e) := by
  rintro Γ Δ a b _ _ _ ha hb ⟨⟩
  exact ⟨[], b.record e, rfl, ha.record e, hb.record e, .nil, List.forall_mem_nil _⟩

theorem declare (x : String) (symbol : Symbol) : Transfers result (declare x symbol) := by
  intro Γ Δ a b u a' hΓ ha hb h
  obtain ⟨hstands, hfresh⟩ := declare_stands ha h
  refine ⟨[(x, symbol)], _, declare_of_fresh hb (hΓ.fresh hfresh), hstands, hb.add x symbol, ?_⟩
  exact ⟨List.pairwise_singleton _ x, by simpa using hfresh⟩

theorem inScope {c : Checker Unit} (hc : Transfers result c) : Transfers result (inScope c) := by
  intro Γ Δ a b u a' hΓ ha hb h
  obtain ⟨b', hb', hstands, hstands'⟩ := inScope_transfers hc hΓ.toIsPart ha hb h
  exact ⟨[], b', hb', hstands, hstands', .nil, List.forall_mem_nil _⟩

theorem withResult {t : Ty} {c : Checker Unit} (hc : Transfers (some t) c) : Transfers none (withResult t c) := by
  intro Γ Δ a b u a' hΓ ha hb h
  obtain ⟨a₁, hcheck, rfl⟩ := withResult_eq_ok h
  have ha₁ : ({ a with result := some t } : Arena).Stands Γ (some t) := ⟨ha.scopes, ha.current, rfl⟩
  have hb₁ : ({ b with result := some t } : Arena).Stands Δ (some t) := ⟨hb.scopes, hb.current, rfl⟩
  obtain ⟨ds, b', hb', hstands, hstands', hfresh⟩ := hc hΓ ha₁ hb₁ hcheck
  refine ⟨ds, { b' with result := none }, ?_, ⟨hstands.scopes, hstands.current, rfl⟩,
    ⟨hstands'.scopes, hstands'.current, rfl⟩, hfresh⟩
  rw [Checker.withResult, hb']

theorem checkVarDecl (x : String) (t : Ty) (init : Option Expr) : Transfers result (checkVarDecl x t init) := by
  have hrest : Transfers result (do Checker.declare x (.variable t); Checker.record (.declareVariable x t)) :=
    (declare x (.variable t)).bind fun _ => record (.declareVariable x t)
  cases init with
  | none => exact hrest
  | some e => exact (Reads.composes.checkInitializer x t e).transfers.bind fun _ => hrest

theorem declareParameters (x : String) (params : List Param) : Transfers result (declareParameters x params) := by
  induction params with
  | nil => exact (Reads.pure ()).transfers
  | cons p params ih =>
    intro Γ Δ a b u a' hΓ ha hb h
    obtain ⟨a₁, a₂, hget, h⟩ := State.bind_eq_ok h
    cases hget
    split at h
    · cases h
    · next hnew =>
      have hfresh := hΓ.fresh (ha.has_eq_false_iff.mp (Bool.eq_false_iff.mpr hnew))
      obtain ⟨ds, b', hb', hrest⟩ := ((declare p.name (.variable p.ty)).bind fun _ => ih) hΓ ha hb h
      refine ⟨ds, b', ?_, hrest⟩
      rw [Checker.declareParameters, State.get_bind, hb.has_eq_false_iff.mpr hfresh]
      exact hb'

end Transfers

/-! ### Statements -/

/-- A function is checked at the top level of every larger context. -/
theorem checkFunction_transfers {x : String} {params : List Param} {t : Ty} {body : List Stmt}
    (hbody : Transfers (some t) (checkStatements body)) (hΓ : Γ.IsPart Δ) (ha : a.Stands Γ result)
    (hb : b.Stands Δ result) {u : Unit} (h : checkStatement (.function x params t body) a = .ok u a') :
    ∃ b', checkStatement (.function x params t body) b = .ok () b' ∧ a'.Stands Γ result ∧ b'.Stands Δ result := by
  unfold checkStatement at h ⊢
  obtain ⟨u₁, a₁, htop, hscope⟩ := State.bind_eq_ok h
  obtain ⟨rfl, htop'⟩ := Reads.requireTop x hΓ ha hb htop
  obtain ⟨-, hresult, -⟩ := requireTop_eq_ok htop
  obtain rfl : result = none := ha.result.symm.trans hresult
  obtain ⟨b', hb', hstands⟩ :=
    inScope_transfers ((Transfers.declareParameters x params).bind fun _ => hbody.withResult) hΓ ha hb hscope
  exact ⟨b', (State.bind_of_ok htop').trans hb', hstands⟩

mutual
theorem Transfers.checkStatement : (s : Stmt) → ∀ {result : Option Ty}, Transfers result (checkStatement s)
  | .varDecl x t init, result => by
    rw [Checker.checkStatement]
    exact .checkVarDecl x t init
  | .assign x e, result => by
    rw [Checker.checkStatement]
    exact (Reads.composes.checkAssignment x e).transfers
  | .print e, result => by
    rw [Checker.checkStatement]
    exact (Reads.composes.discard (Reads.composes.valueType e)).transfers
  | .input x, result => by
    rw [Checker.checkStatement]
    exact (Reads.composes.discard (Reads.composes.resolveVariable x)).transfers
  | .ifThen cond body, result => by
    rw [Checker.checkStatement]
    exact (Reads.composes.checkCondition _ cond).transfers.bind fun _ => (Transfers.checkStatements body).inScope
  | .ifElse cond yes no, result => by
    rw [Checker.checkStatement]
    have hcond : Transfers result _ := (Reads.composes.checkCondition .ifStatement cond).transfers
    exact hcond.bind fun _ => (Transfers.checkStatements yes).inScope.bind fun _ => (Transfers.checkStatements no).inScope
  | .whileLoop cond body, result => by
    rw [Checker.checkStatement]
    exact (Reads.composes.checkCondition _ cond).transfers.bind fun _ => (Transfers.checkStatements body).inScope
  | .forLoop init cond step body, result => by
    rw [Checker.checkStatement]
    have hcond : Transfers result _ := (Reads.composes.checkCondition .forLoop cond).transfers
    exact .inScope <| (Transfers.checkStatement init).bind fun _ => hcond.bind fun _ =>
      (Transfers.checkStatement step).bind fun _ => (Transfers.checkStatements body).inScope
  | .function x params t body, result => by
    intro Γ Δ a b u a' hΓ ha hb h
    obtain ⟨b', hb', hstands, hstands'⟩ :=
      checkFunction_transfers (Transfers.checkStatements body) hΓ.toIsPart ha hb h
    exact ⟨[], b', hb', hstands, hstands', .nil, List.forall_mem_nil _⟩
  | .ret value, result => by
    rw [Checker.checkStatement]
    exact (Reads.checkReturn value).transfers
  | .expr e, result => by
    rw [Checker.checkStatement]
    exact (Reads.composes.discard (Reads.composes.typeOf e)).transfers
  | .block body, result => by
    rw [Checker.checkStatement]
    exact (Transfers.checkStatements body).inScope
  | .stray node, result => by
    rw [Checker.checkStatement]
    exact (Reads.throw _).transfers
  | .misnamed x init node, result => by
    rw [Checker.checkStatement.eq_def]
    cases init with
    | none => exact ((Reads.pure ()).bind fun _ => .throw _).transfers
    | some init => exact ((Reads.composes.checkInitializer _ init.1 init.2).bind fun _ => .throw _).transfers
  | .notBlock node, result => by
    rw [Checker.checkStatement]
    exact (Reads.throw _).transfers

theorem Transfers.checkStatements : (ss : List Stmt) → ∀ {result : Option Ty}, Transfers result (checkStatements ss)
  | [], result => by
    rw [Checker.checkStatements]
    exact (Reads.pure ()).transfers
  | s :: ss, result => by
    rw [Checker.checkStatements]
    exact (Transfers.checkStatement s).bind fun _ => Transfers.checkStatements ss
end

/-! ### Statements one after the other -/

theorem checkStatements_append_eq_ok {ss ts : List Stmt} {u : Unit} :
    checkStatements (ss ++ ts) a = .ok u a' ↔
      ∃ a₁, checkStatements ss a = .ok () a₁ ∧ checkStatements ts a₁ = .ok u a' := by
  induction ss generalizing a with
  | nil =>
    constructor
    · exact fun h => ⟨a, rfl, h⟩
    · rintro ⟨_, ⟨⟩, h⟩
      exact h
  | cons s ss ih =>
    rw [List.cons_append, checkStatements, checkStatements]
    constructor
    · intro h
      obtain ⟨_, a₁, hs, h⟩ := State.bind_eq_ok h
      obtain ⟨a₂, hss, hts⟩ := ih.mp h
      exact ⟨a₂, (State.bind_of_ok hs).trans hss, hts⟩
    · rintro ⟨a₂, h, hts⟩
      obtain ⟨_, a₁, hs, hss⟩ := State.bind_eq_ok h
      exact (State.bind_of_ok hs).trans (ih.mpr ⟨a₂, hss, hts⟩)

/-- A function at the top level may as well stand behind the statements that follow it. -/
theorem checkStatements_postponed {s : Stmt} (hs : s.function?.isSome = true) {mid post : List Stmt} {u : Unit}
    (hinner : Γ.inner = []) (hΓ : Γ.Suits Δ) (ha : a.Stands Γ result) (hb : b.Stands Δ result)
    (h : checkStatements (s :: (mid ++ post)) a = .ok u a') :
    ∃ b', checkStatements (mid ++ s :: post) b = .ok () b' := by
  cases s with
  | function x params t body =>
    rw [checkStatements] at h
    obtain ⟨_, a₁, hfunction, h⟩ := State.bind_eq_ok h
    obtain ⟨a₂, hmid, hpost⟩ := checkStatements_append_eq_ok.mp h
    have hbody : Transfers (some t) (checkStatements body) := .checkStatements body
    obtain ⟨-, -, ha₁, -⟩ := checkFunction_transfers hbody hΓ.toIsPart ha hb hfunction
    obtain ⟨ds, b₁, hmid', ha₂, hb₁, hfresh⟩ := Transfers.checkStatements mid hΓ ha₁ hb hmid
    have hΓ' := hΓ.declareAll ds
    obtain ⟨b₂, hfunction', -, hb₂⟩ :=
      checkFunction_transfers hbody ((isPart_declareAll hinner hfresh).trans hΓ'.toIsPart) ha hb₁ hfunction
    obtain ⟨es, b', hpost', -⟩ := Transfers.checkStatements post hΓ' ha₂ hb₂ hpost
    refine ⟨b', checkStatements_append_eq_ok.mpr ⟨b₁, hmid', ?_⟩⟩
    rw [checkStatements]
    exact (State.bind_of_ok hfunction').trans hpost'
  | _ => cases hs

end Checker
end Typing
end TypedImp
