import TypedImp.Proofs.Typing.Admitted
import TypedImp.Proofs.Typing.Composed

/-! The arena as a stack of scopes. Leaving a scope drops the last one of the arena but goes back to the parent of the current
    one; that comes to the same because the current scope is always the last. A check that fails in the middle of blocks,
    headers and bodies leaves their scopes behind, yet on top of a stack that it has not touched otherwise; so whatever
    checks are made of an arena one after the other, it is a stack between them. -/

namespace TypedImp
namespace Typing

/-! ### Scopes left behind -/

namespace Context
variable {Γ Γ' Δ : Context}

/-- There are other scopes above those of the context. -/
def Above (Γ' Γ : Context) : Prop := ∃ more, Γ' = { Γ with inner := more ++ Γ.inner }

theorem above_refl (Γ : Context) : Γ.Above Γ := ⟨[], rfl⟩

theorem Above.trans (h : Γ'.Above Γ) (hΓ : Γ.Above Δ) : Γ'.Above Δ := by
  obtain ⟨more, rfl⟩ := h
  obtain ⟨more', rfl⟩ := hΓ
  exact ⟨more ++ more', by rw [List.append_assoc]⟩

theorem Within.above (h : Γ'.Within Γ) : Γ'.Above Γ := by
  obtain ⟨scope, rfl⟩ := h
  exact ⟨[scope], rfl⟩

theorem Above.exists_stack (h : Γ'.Above Γ) : ∃ more, stack Γ'.top Γ'.inner = stack Γ.top Γ.inner ++ more := by
  obtain ⟨inner, rfl⟩ := h
  induction inner with
  | nil => exact ⟨[], (List.append_nil _).symm⟩
  | cons symbols inner ih =>
    obtain ⟨more, hmore⟩ := ih
    refine ⟨more ++ [⟨some (inner ++ Γ.inner).length, symbols⟩], ?_⟩
    rw [← List.append_assoc, ← hmore]
    rfl

end Context

open Context

namespace Checker
variable {α β : Type} {result : Option Ty}

/-! ### How a check ends -/

/-- The arena that a check ends with, where it ends well and where it fails. -/
def EndsIn (well failed : Arena → Prop) : EStateM.Result Error Arena α → Prop
  | .ok _ a => well a
  | .error _ a => failed a

namespace EndsIn
variable {well well' failed failed' : Arena → Prop} {r : EStateM.Result Error Arena α} {c : Checker α} {a : Arena}

theorem mono (hr : EndsIn well failed r) (hwell : ∀ a, well a → well' a) (hfailed : ∀ a, failed a → failed' a) :
    EndsIn well' failed' r := by
  cases r with
  | ok x a => exact hwell a hr
  | error e a => exact hfailed a hr

/-- A sequence ends where its second part does, or where the first one fails. -/
theorem bind {k : α → Checker β} (hc : EndsIn well failed (c a))
    (hk : ∀ x a', well a' → EndsIn well' failed (k x a')) : EndsIn well' failed ((c >>= k) a) := by
  cases h : c a with
  | ok x a' =>
    rw [h] at hc
    rw [State.bind_of_ok h]
    exact hk x a' hc
  | error e a' =>
    rw [h] at hc
    rw [State.bind_of_error h]
    exact hc

theorem of_run (h : EndsIn well well (c a)) : well (c.run a).arena := by
  unfold run
  cases hca : c a with
  | ok x a' | error e a' =>
    rw [hca] at h
    exact h

end EndsIn

/-! ### Checks that only look -/

/-- The check leaves the arena as it is, whether it ends well or fails. -/
def Looks (c : Checker α) : Prop := ∀ a, EndsIn (· = a) (· = a) (c a)

namespace Looks
variable {c : Checker α}

theorem pure (x : α) : Looks (pure x : Checker α) := fun _ => rfl

theorem throw (e : Error) : Looks (throw e : Checker α) := fun _ => rfl

theorem look : Looks (get : Checker Arena) := fun _ => rfl

theorem eq_of_ok (hc : Looks c) {x : α} {a a' : Arena} (h : c a = .ok x a') : a' = a := by
  have ha := hc a
  rwa [h] at ha

theorem bind {k : α → Checker β} (hc : Looks c) (hk : ∀ x, Looks (k x)) : Looks (c >>= k) := fun a =>
  (hc a).bind fun x a' ha' => by
    subst ha'
    exact hk x a'

theorem resolve (x : String) : Looks (resolve x) := by
  refine look.bind fun a => ?_
  split
  · exact pure _
  · exact throw _

theorem composes : Composes Looks := ⟨pure, throw, bind, resolve⟩

theorem checkReturn (value : Option Expr) : Looks (checkReturn value) := by
  refine look.bind fun a => ?_
  split
  · exact throw _
  · exact Composes.ite (throw _) (pure _)
  · exact composes.refusal _ ((composes.valueType _).bind fun _ => Composes.ite (throw _) (pure _))

theorem requireTop (x : String) : Looks (requireTop x) := look.bind fun _ => Composes.ite (throw _) (pure _)

end Looks

/-! ### Checks that leave the stack as it was -/

/-- What the check makes of an arena that stands for a context. Where it ends well the arena stands for the next context;
    where it fails scopes may have been left behind, but those that there were are as they were. -/
def Leaves (result : Option Ty) (next : Context → Context) (c : Checker α) : Prop :=
  ∀ ⦃Γ a⦄, a.Stands Γ result →
    EndsIn (·.Stands (next Γ) result) (fun a' => ∃ Γ', Γ'.Above Γ ∧ a'.Stands Γ' result) (c a)

/-- What the check makes of an arena that stands for a context in a block: the same for the scopes around the block, while
    the one of the block may be changed. -/
def StaysInside (result : Option Ty) (c : Checker α) : Prop :=
  ∀ ⦃Δ Γ a⦄, Γ.Within Δ → a.Stands Γ result →
    EndsIn (fun a' => ∃ Γ', Γ'.Within Δ ∧ a'.Stands Γ' result) (fun a' => ∃ Γ', Γ'.Above Δ ∧ a'.Stands Γ' result) (c a)

theorem Looks.leaves {c : Checker α} (hc : Looks c) : Leaves result id c := fun Γ a ha =>
  (hc a).mono (fun _ h => h ▸ ha) fun _ h => ⟨Γ, Γ.above_refl, h ▸ ha⟩

namespace Leaves
variable {c : Checker α} {next : Context → Context}

/-- A check that leaves the context as it is, and then another one. -/
theorem bind {k : α → Checker β} (hc : Leaves result id c) (hk : ∀ x, Leaves result next (k x)) :
    Leaves result next (c >>= k) := fun _ _ ha => (hc ha).bind fun x _ ha' => hk x ha'

theorem staysInside (hc : Leaves result next c) (hnext : ∀ ⦃Γ Δ⦄, Γ.Within Δ → (next Γ).Within Δ) :
    StaysInside result c := by
  intro Δ Γ a hΓ ha
  refine (hc ha).mono (fun _ hstands => ⟨next Γ, hnext hΓ, hstands⟩) ?_
  rintro _ ⟨Γ', habove, hstands⟩
  exact ⟨Γ', habove.trans hΓ.above, hstands⟩

theorem declare (x : String) (symbol : Symbol) : Leaves result (fun Γ => Γ.declare x symbol) (declare x symbol) := by
  intro Γ a ha
  rw [Checker.declare, State.get_bind]
  by_cases hknown : a.scope.symbols.has x = true
  · rw [if_pos hknown]
    exact ⟨Γ, Γ.above_refl, ha⟩
  · rw [if_neg hknown]
    exact ha.add x symbol

/-- Behind the declaration there is only a report, which cannot fail. -/
theorem checkVarDecl (x : String) (t : Ty) (init : Option Expr) :
    Leaves result (fun Γ => Γ.declare x (.variable t)) (checkVarDecl x t init) := by
  have hrest : Leaves result (fun Γ => Γ.declare x (.variable t))
      (do Checker.declare x (.variable t); record (.declareVariable x t)) := fun _ _ ha =>
    (declare x (.variable t) ha).bind fun _ _ ha' => ha'.record _
  cases init with
  | none => exact hrest
  | some e => exact (Looks.composes.checkInitializer x t e).leaves.bind fun _ => hrest

end Leaves

namespace StaysInside
variable {c : Checker α}

theorem bind {k : α → Checker β} (hc : StaysInside result c) (hk : ∀ x, StaysInside result (k x)) :
    StaysInside result (c >>= k) := fun _ _ _ hΓ ha =>
  (hc hΓ ha).bind fun x _ ⟨_, hΓ', ha'⟩ => hk x hΓ' ha'

theorem looks (hc : Looks c) : StaysInside result c := hc.leaves.staysInside fun _ _ h => h

theorem declareParameters (x : String) (params : List Param) : StaysInside result (declareParameters x params) := by
  induction params with
  | nil => exact looks (.pure ())
  | cons p params ih =>
    have hdeclare : StaysInside result (declare p.name (.variable p.ty)) :=
      (Leaves.declare p.name (.variable p.ty)).staysInside fun _ _ h => h.declare _ _
    refine (looks .look).bind fun a => ?_
    split
    · exact (looks (.throw _)).bind fun _ => hdeclare.bind fun _ => ih
    · exact hdeclare.bind fun _ => ih

theorem withResult {t : Ty} {c : Checker Unit} (hc : StaysInside (some t) c) : StaysInside none (withResult t c) := by
  intro Δ Γ a hΓ ha
  have hbody : ({ a with result := some t } : Arena).Stands Γ (some t) := ⟨ha.scopes, ha.current, rfl⟩
  have h := hc hΓ hbody
  unfold Checker.withResult
  cases hcheck : c { a with result := some t } with
  | ok u a' | error u a' =>
    rw [hcheck] at h
    obtain ⟨Γ', hΓ', ha'⟩ := h
    exact ⟨Γ', hΓ', ha'.scopes, ha'.current, rfl⟩

/-- A block ends where it began, or leaves its scope and those in it behind. -/
theorem inScope {c : Checker Unit} (hc : StaysInside result c) : Leaves result id (inScope c) := by
  intro Γ a ha
  have henter : enterScope a = .ok () a.enter := rfl
  rw [Checker.inScope, State.bind_of_ok henter]
  refine (hc Γ.within_block ha.enter).bind ?_
  rintro u a' ⟨Γ', hΓ', ha'⟩
  obtain ⟨b, hexit, hb⟩ := ha'.exit hΓ'
  rw [hexit]
  exact hb

end StaysInside

/-! ### Statements -/

/-- In the body of a function there is none to declare. -/
theorem requireTop_of_body {a : Arena} (h : a.result.isSome = true) (x : String) :
    requireTop x a = .error (.functionNotAtTop x) a := by
  rw [requireTop, State.get_bind, h]
  rfl

/-- The body of a function is checked where no other one is, with its result type. -/
theorem checkFunction_leaves (x : String) (params : List Param) {t : Ty} {c : Checker Unit}
    (hc : StaysInside (some t) c) :
    Leaves result id (do requireTop x; inScope (do declareParameters x params; withResult t c)) := by
  cases result with
  | none =>
    refine (Looks.requireTop x).leaves.bind fun _ => StaysInside.inScope ?_
    exact (StaysInside.declareParameters x params).bind fun _ => hc.withResult
  | some s =>
    intro Γ a ha
    rw [State.bind_of_error (requireTop_of_body (by rw [ha.result]; rfl) x)]
    exact ⟨Γ, Γ.above_refl, ha⟩

mutual
theorem checkStatement_leaves : (s : Stmt) → ∀ result, Leaves result (fun Γ => Γ.after s) (checkStatement s)
  | .varDecl x t init, result => by
    rw [checkStatement]
    exact .checkVarDecl x t init
  | .assign x e, result => by
    rw [checkStatement]
    exact (Looks.composes.checkAssignment x e).leaves
  | .print e, result => by
    rw [checkStatement]
    exact (Looks.composes.discard (Looks.composes.valueType e)).leaves
  | .input x, result => by
    rw [checkStatement]
    exact (Looks.composes.discard (Looks.composes.resolveVariable x)).leaves
  | .ifThen cond body, result => by
    rw [checkStatement]
    exact (Looks.composes.checkCondition _ cond).leaves.bind fun _ => (checkStatements_staysInside body result).inScope
  | .ifElse cond yes no, result => by
    rw [checkStatement]
    have hcond : Leaves result id _ := (Looks.composes.checkCondition .ifStatement cond).leaves
    exact hcond.bind fun _ => (checkStatements_staysInside yes result).inScope.bind fun _ =>
      (checkStatements_staysInside no result).inScope
  | .whileLoop cond body, result => by
    rw [checkStatement]
    exact (Looks.composes.checkCondition _ cond).leaves.bind fun _ => (checkStatements_staysInside body result).inScope
  | .forLoop init cond step body, result => by
    have hinit := (checkStatement_leaves init result).staysInside fun _ _ h => h.after init
    have hcond : StaysInside result _ := .looks (Looks.composes.checkCondition .forLoop cond)
    have hstep := (checkStatement_leaves step result).staysInside fun _ _ h => h.after step
    have hbody := (checkStatements_staysInside body result).inScope.staysInside fun _ _ h => h
    rw [checkStatement]
    exact StaysInside.inScope <| hinit.bind fun _ => hcond.bind fun _ => hstep.bind fun _ => hbody
  | .function x params t body, result => by
    rw [checkStatement]
    exact checkFunction_leaves x params (checkStatements_staysInside body (some t))
  | .ret value, result => by
    rw [checkStatement]
    exact (Looks.checkReturn value).leaves
  | .expr e, result => by
    rw [checkStatement]
    exact (Looks.composes.discard (Looks.composes.typeOf e)).leaves
  | .block body, result => by
    rw [checkStatement]
    exact (checkStatements_staysInside body result).inScope
  | .stray node, result => by
    rw [checkStatement]
    exact (Looks.throw _).leaves
  | .misnamed x init node, result => by
    rw [checkStatement.eq_def]
    cases init with
    | none => exact ((Looks.pure ()).bind fun _ => .throw _).leaves
    | some init => exact ((Looks.composes.checkInitializer _ init.1 init.2).bind fun _ => .throw _).leaves
  | .notBlock node, result => by
    rw [checkStatement]
    exact (Looks.throw _).leaves

theorem checkStatements_staysInside : (ss : List Stmt) → ∀ result, StaysInside result (checkStatements ss)
  | [], result => by
    rw [checkStatements]
    exact .looks (.pure ())
  | s :: ss, result => by
    rw [checkStatements]
    have hfirst := (checkStatement_leaves s result).staysInside fun _ _ h => h.after s
    exact hfirst.bind fun _ => checkStatements_staysInside ss result
end

/-- The name that a declaration was accepted for was new where it stands. -/
theorem fresh_of_checkVarDecl {x : String} {t : Ty} {init : Option Expr} {u : Unit} {a a' : Arena} {Γ : Context}
    (ha : a.Stands Γ result) (h : checkVarDecl x t init a = .ok u a') : Γ.Fresh x := by
  cases init with
  | none =>
    obtain ⟨u₁, a₁, hdeclare, -⟩ := State.bind_eq_ok h
    exact (declare_stands ha hdeclare).2
  | some e =>
    obtain ⟨u₁, a₁, hinit, hrest⟩ := State.bind_eq_ok h
    obtain rfl := (Looks.composes.checkInitializer x t e).eq_of_ok hinit
    obtain ⟨u₂, a₂, hdeclare, -⟩ := State.bind_eq_ok hrest
    exact (declare_stands ha hdeclare).2

/-! ### Checks made of an arena -/

/-- Between the checks the arena is a stack. -/
def Keeps (c : Checker α) : Prop :=
  ∀ ⦃Γ a⦄, a.Stands Γ none → EndsIn (fun a' => ∃ Γ', a'.Stands Γ' none) (fun a' => ∃ Γ', a'.Stands Γ' none) (c a)

namespace Keeps
variable {c : Checker α}

theorem bind {k : α → Checker β} (hc : Keeps c) (hk : ∀ x, Keeps (k x)) : Keeps (c >>= k) := fun _ _ ha =>
  (hc ha).bind fun x _ ⟨_, ha'⟩ => hk x ha'

theorem leaves {next : Context → Context} (hc : Leaves none next c) : Keeps c := fun Γ _ ha =>
  (hc ha).mono (fun _ hstands => ⟨next Γ, hstands⟩) fun _ ⟨Γ', _, hstands⟩ => ⟨Γ', hstands⟩

theorem looks (hc : Looks c) : Keeps c := leaves hc.leaves

theorem record (e : Event) : Keeps (record e) := fun Γ _ ha => ⟨Γ, ha.record e⟩

theorem enterScope : Keeps enterScope := fun Γ _ ha => ⟨Γ.block, ha.enter⟩

/-- The outermost scope is not left. -/
theorem exitScope : Keeps exitScope := by
  rintro ⟨inner, top⟩ a ha
  cases inner with
  | nil =>
    have hparent : a.scope.parent = none := by
      rw [ha.scope]
      rfl
    have hexit : Checker.exitScope a = .error .globalScopeExit a := by
      rw [Checker.exitScope, State.get_bind, hparent]
      rfl
    rw [hexit]
    exact ⟨_, ha⟩
  | cons symbols outer =>
    obtain ⟨a', hexit, ha'⟩ := ha.exit (⟨symbols, rfl⟩ : Within _ ⟨outer, top⟩)
    rw [hexit]
    exact ⟨_, ha'⟩

theorem declareFunctions (fs : List Function) : Keeps (declareFunctions fs) := by
  induction fs with
  | nil => exact looks (.pure ())
  | cons f fs ih => exact (leaves (.declare _ _)).bind fun _ => (record _).bind fun _ => ih

theorem checkStatements (ss : List Stmt) : Keeps (checkStatements ss) := by
  induction ss with
  | nil => exact looks (.pure ())
  | cons s ss ih => exact (leaves (checkStatement_leaves s none)).bind fun _ => ih

end Keeps
end Checker

/-- What can be asked of a checker. -/
inductive Call where
  | enterScope
  | exitScope
  | declare (name : String) (symbol : Symbol)
  | resolve (name : String)
  | resolveVariable (name : String)
  | program (p : Program)
  | statement (s : Stmt)
  | block (body : List Stmt)
  | expression (e : Expr)
  | value (e : Expr)

/-- The check that a call makes, whatever it answers. -/
def Call.check : Call → Checker Unit
  | enterScope => Checker.enterScope
  | exitScope => Checker.exitScope
  | declare name symbol => Checker.declare name symbol
  | resolve name => discard (Checker.resolve name)
  | resolveVariable name => discard (Checker.resolveVariable name)
  | program p => Checker.checkProgram p
  | statement s => Checker.checkStatement s
  | block body => Checker.checkBlock body
  | expression e => discard (Checker.typeOf e)
  | value e => discard (Checker.valueType e)

namespace Arena

/-- The arena of a new checker behind calls, some of which may have failed. -/
def behind (calls : List Call) : Arena := calls.foldl (fun a call => (call.check.run a).arena) start

/-- Every call keeps the stack. -/
theorem keeps_check (call : Call) : call.check.Keeps := by
  cases call with
  | enterScope => exact .enterScope
  | exitScope => exact .exitScope
  | declare name symbol => exact .leaves (.declare name symbol)
  | resolve name => exact .looks (Checker.Looks.composes.discard (.resolve name))
  | resolveVariable name => exact .looks (Checker.Looks.composes.discard (Checker.Looks.composes.resolveVariable name))
  | program p => exact (Checker.Keeps.declareFunctions p.functions).bind fun _ => .checkStatements p.body
  | statement s => exact .leaves (Checker.checkStatement_leaves s none)
  | block body => exact .leaves (Checker.checkStatements_staysInside body none).inScope
  | expression e => exact .looks (Checker.Looks.composes.discard (Checker.Looks.composes.typeOf e))
  | value e => exact .looks (Checker.Looks.composes.discard (Checker.Looks.composes.valueType e))

theorem behind_stands (calls : List Call) : ∃ Γ, (behind calls).Stands Γ none := by
  have hfold : ∀ a : Arena, (∃ Γ, a.Stands Γ none) →
      ∃ Γ, (calls.foldl (fun a call => (call.check.run a).arena) a).Stands Γ none := by
    induction calls with
    | nil => exact fun _ h => h
    | cons call calls ih =>
      rintro a ⟨Γ, ha⟩
      exact ih _ (keeps_check call ha).of_run
  exact hfold start ⟨⟨[], []⟩, Checker.stands_start⟩

/-! ### The scopes of a stack -/

/-- Each scope of the arena lies in the one before it, the outermost one in none. The last one is the current one, and no
    body of a function is under check. -/
structure IsStack (a : Arena) : Prop where
  outermost : ∃ symbols, a.scopes[0]? = some ⟨none, symbols⟩
  around : ∀ i scope, a.scopes[i + 1]? = some scope → scope.parent = some i
  last : a.current + 1 = a.scopes.length
  result : a.result = none

end Arena

namespace Context

theorem stack_zero (top : Assoc Symbol) (inner : List (Assoc Symbol)) : (stack top inner)[0]? = some ⟨none, top⟩ := by
  induction inner with
  | nil => rfl
  | cons symbols outer ih =>
    rw [stack, List.getElem?_append_left (by rw [length_stack]; exact Nat.succ_pos _), ih]

theorem parent_of_stack (top : Assoc Symbol) {inner : List (Assoc Symbol)} {i : Nat} {scope : Scope}
    (h : (stack top inner)[i + 1]? = some scope) : scope.parent = some i := by
  induction inner with
  | nil => cases h
  | cons symbols outer ih =>
    rw [stack] at h
    rcases Nat.lt_or_ge (i + 1) (stack top outer).length with hi | hi
    · rw [List.getElem?_append_left hi] at h
      exact ih h
    · rw [List.getElem?_append_right hi, length_stack, Nat.add_sub_add_right] at h
      rw [length_stack] at hi
      rcases Nat.eq_or_lt_of_le (Nat.le_of_succ_le_succ hi) with rfl | hi
      · rw [Nat.sub_self] at h
        cases h
        rfl
      · rw [List.getElem?_eq_none (Nat.sub_pos_of_lt hi)] at h
        cases h

/-- The innermost scope that has a name says what it stands for. -/
theorem findSome?_stack (top : Assoc Symbol) (inner : List (Assoc Symbol)) (x : String) :
    ((stack top inner).reverse.findSome? fun scope => scope.symbols.get? x) = (Context.mk inner top).lookup? x := by
  induction inner with
  | nil =>
    show _ = top.get? x
    rw [stack, List.reverse_singleton, List.findSome?_cons, List.findSome?_nil]
    cases Assoc.get? top x <;> rfl
  | cons symbols outer ih =>
    rw [stack, List.reverse_append, List.reverse_singleton, List.singleton_append, List.findSome?_cons, ih, lookup?_cons]
    cases Assoc.get? symbols x <;> rfl

/-- The innermost scope is the last one. -/
theorem exists_stack_eq (top : Assoc Symbol) (inner : List (Assoc Symbol)) :
    ∃ below, stack top inner = below ++ [⟨parent? inner, inner.headD top⟩] := by
  cases inner with
  | nil => exact ⟨[], rfl⟩
  | cons symbols outer => exact ⟨stack top outer, rfl⟩

/-- A declaration puts its symbol behind those of the innermost scope. -/
theorem exists_stack_declare {Γ : Context} {x : String} (h : Γ.Fresh x) (symbol : Symbol) :
    ∃ below, stack Γ.top Γ.inner = below ++ [⟨parent? Γ.inner, Γ.current⟩] ∧
      stack (Γ.declare x symbol).top (Γ.declare x symbol).inner =
        below ++ [⟨parent? Γ.inner, Γ.current ++ [(x, symbol)]⟩] := by
  have hnew : x ∉ Γ.current.map Prod.fst := by
    intro hmem
    obtain ⟨d, hd, rfl⟩ := List.mem_map.mp hmem
    simpa using List.lookup_eq_none_iff.mp h d hd
  rw [← Assoc.insert_of_not_mem hnew]
  obtain ⟨inner, top⟩ := Γ
  cases inner with
  | nil => exact ⟨[], rfl, rfl⟩
  | cons symbols outer => exact ⟨stack top outer, rfl, rfl⟩

end Context

namespace Arena.Stands
variable {a : Arena} {Γ : Context}

theorem isStack (h : a.Stands Γ none) : a.IsStack where
  outermost := by
    rw [h.scopes]
    exact ⟨_, Context.stack_zero Γ.top Γ.inner⟩
  around i scope := by
    rw [h.scopes]
    exact Context.parent_of_stack Γ.top
  last := by rw [h.scopes, h.current, Context.length_stack]
  result := h.result

end Arena.Stands

/-- What a statement declares where it stands. A function is declared with its program, before any statement. -/
def declared : Stmt → Assoc Symbol
  | .varDecl x t _ => [(x, .variable t)]
  | _ => []

namespace Checker

/-- A statement that is accepted adds what it declares to the innermost scope, where it is new. -/
theorem checkStatement_adds {s : Stmt} {u : Unit} {a a' : Arena} {Γ : Context} (ha : a.Stands Γ none)
    (h : checkStatement s a = .ok u a') :
    ∃ below scope, a.scopes = below ++ [scope] ∧
      a'.scopes = below ++ [{ scope with symbols := scope.symbols ++ declared s }] ∧
      ∀ d ∈ declared s, scope.symbols.has d.1 = false := by
  have hs := checkStatement_leaves s none ha
  rw [h] at hs
  cases s with
  | varDecl x t init =>
    rw [checkStatement] at h
    have hfresh := fresh_of_checkVarDecl ha h
    obtain ⟨below, hbefore, hafter⟩ := Context.exists_stack_declare hfresh (.variable t)
    refine ⟨below, _, ha.scopes.trans hbefore, hs.scopes.trans hafter, List.forall_mem_singleton.mpr ?_⟩
    rw [Assoc.has, hfresh]
    rfl
  | _ =>
    have hsame : a'.Stands Γ none := hs
    obtain ⟨below, hstack⟩ := Context.exists_stack_eq Γ.top Γ.inner
    refine ⟨below, _, ha.scopes.trans hstack, ?_, List.forall_mem_nil _⟩
    simp [declared, hsame.scopes, hstack]

end Checker

/-- Whatever has been asked of a checker, its scopes are a stack, and no body of a function is under check. A name stands for
    what the innermost scope that has it says. A statement that is accepted adds what it declares to the innermost scope,
    which had no such name; one that is refused leaves all scopes as they were and at most others above them. -/
theorem arena_stays_stack (calls : List Call) :
    (Arena.behind calls).IsStack ∧
      (∀ x, Checker.resolve x (Arena.behind calls) =
        match (Arena.behind calls).scopes.reverse.findSome? fun scope => scope.symbols.get? x with
        | some symbol => .ok symbol (Arena.behind calls)
        | none => .error (.undeclared x) (Arena.behind calls)) ∧
      ∀ s, match Checker.checkStatement s (Arena.behind calls) with
        | .ok _ a => ∃ below scope, (Arena.behind calls).scopes = below ++ [scope] ∧
            a.scopes = below ++ [{ scope with symbols := scope.symbols ++ declared s }] ∧
            ∀ d ∈ declared s, scope.symbols.has d.1 = false
        | .error _ a => ∃ more, a.scopes = (Arena.behind calls).scopes ++ more := by
  obtain ⟨Γ, hΓ⟩ := Arena.behind_stands calls
  generalize Arena.behind calls = a at hΓ
  refine ⟨hΓ.isStack, fun x => ?_, fun s => ?_⟩
  · rw [Checker.resolve, State.get_bind, hΓ.resolve?, hΓ.scopes, Context.findSome?_stack]
    cases Γ.lookup? x <;> rfl
  · have hs := Checker.checkStatement_leaves s none hΓ
    cases hcheck : Checker.checkStatement s a with
    | ok u a' =>
      exact Checker.checkStatement_adds hΓ hcheck
    | error e a' =>
      rw [hcheck] at hs
      obtain ⟨Γ', habove, hstands⟩ := hs
      show ∃ more, a'.scopes = a.scopes ++ more
      rw [hstands.scopes, hΓ.scopes]
      exact habove.exists_stack

end Typing
end TypedImp
