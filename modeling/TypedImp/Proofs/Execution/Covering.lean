import TypedImp.Proofs.Execution.Located
import TypedImp.Proofs.Execution.Shadowing
import TypedImp.Proofs.Execution.Step

/-! Stores that cover a context, and runs that find their variables there. Where no call is active the variables of the
    context are bound; where one is active those of its blocks are, and a global may be missing. What a step may be
    refused is then only a global, and only in a call. -/

namespace TypedImp
namespace Execution
open Typing (Context Admits AdmitsAll AtHome)

/-! ### Stores that cover a context -/

/-- The variables of the blocks of a context are bound in the active call. Where none is active those of the top level
    are bound as well. -/
structure Covers (Γ : Context) (s : Store) : Prop where
  inner : ∀ scope ∈ Γ.inner, ∀ x, scope.has x = true → s.current.has x = true
  top : s.frames = [] → ∀ x t, Γ.top.get? x = some (.variable t) → s.current.has x = true

namespace Covers
variable {Γ : Context} {s t : Store} {x : String} {ty : Ty}

theorem block (h : Covers Γ s) : Covers Γ.block s where
  inner := List.forall_mem_cons.mpr ⟨fun _ hx => (nomatch hx), h.inner⟩
  top := h.top

theorem of_block (h : Covers Γ.block s) : Covers Γ s where
  inner := (List.forall_mem_cons.mp h.inner).2
  top := h.top

/-- What a run binds stays bound. -/
theorem retyped {D : List (String × Ty)} (h : Covers Γ s) (hst : Store.Retyped D s t) : Covers Γ t where
  inner scope hscope x hx := hst.current.kept x (h.inner scope hscope x hx)
  top ht x u hx := by
    have hs : s.frames = [] := by
      by_contra hne
      exact hst.frames_ne_nil.mpr hne ht
    exact hst.current.kept x (h.top hs x u hx)

theorem declare (h : Covers Γ s) (x : String) (ty : Ty) (v : Option Value) :
    Covers (Γ.declare x (.variable ty)) (s.declare x ty v) := by
  have hkept := h.retyped (.declare s x ty v)
  have hself : (s.declare x ty v).current.has x = true := by
    rw [Assoc.has, get?_current_declare]
    rfl
  obtain ⟨inner, top⟩ := Γ
  cases inner with
  | nil =>
    refine ⟨List.forall_mem_nil _, fun ht y u hy => ?_⟩
    by_cases hyx : y = x
    · exact hyx ▸ hself
    · exact hkept.top ht y u (Assoc.get?_insert_of_ne top _ hyx ▸ hy)
  | cons scope outer =>
    obtain ⟨hscope, houter⟩ := List.forall_mem_cons.mp hkept.inner
    refine ⟨List.forall_mem_cons.mpr ⟨fun y hy => ?_, houter⟩, hkept.top⟩
    rw [Assoc.has_insert, Bool.or_eq_true, beq_iff_eq] at hy
    exact hy.elim (fun hyx => hyx ▸ hself) (hscope y)

/-- What is covered behind a declaration has been covered before it, too. -/
theorem of_declare (h : Covers (Γ.declare x (.variable ty)) s) : Covers Γ s := by
  obtain ⟨inner, top⟩ := Γ
  cases inner with
  | nil =>
    refine ⟨List.forall_mem_nil _, fun hs y u hy => ?_⟩
    by_cases hyx : y = x
    · exact h.top hs y ty (hyx ▸ Assoc.get?_insert_self top x _)
    · exact h.top hs y u ((Assoc.get?_insert_of_ne top _ hyx).trans hy)
  | cons scope outer =>
    obtain ⟨hscope, houter⟩ := List.forall_mem_cons.mp h.inner
    refine ⟨List.forall_mem_cons.mpr ⟨fun y hy => hscope y ?_, houter⟩, h.top⟩
    rw [Assoc.has_insert, hy, Bool.or_true]

theorem of_after (st : Stmt) (h : Covers (Γ.after st) s) : Covers Γ s := by
  cases st with
  | varDecl x t init => exact h.of_declare
  | _ => exact h

/-- A variable that is not bound is a global that a call has not in its frame. -/
theorem isGlobal (h : Covers Γ s) (hx : Γ.names.type? x = some ty) (hnone : s.current.get? x = none) :
    s.depth ≠ 0 ∧ Γ.IsGlobal x := by
  have hunbound : ¬ s.current.has x = true := by
    rw [Assoc.has, hnone]
    exact Bool.false_ne_true
  have hinner : ∀ scope ∈ Γ.inner, scope.get? x = none := by
    intro scope hscope
    by_contra hne
    exact hunbound (h.inner scope hscope x (Option.isSome_iff_ne_none.mpr hne))
  have htop : Γ.top.get? x = some (.variable ty) := by
    have hlookup := Context.lookup?_of_type hx
    rwa [Context.lookup?, List.findSome?_eq_none_iff.mpr hinner, Option.none_or] at hlookup
  refine ⟨fun hdepth => hunbound (h.top (List.length_eq_zero_iff.mp hdepth) x ty htop), hinner, ty, htop⟩

end Covers

/-! ### Quiet runs -/

/-- The variable that a run has stopped for, because it is not bound. -/
def Stop.unbound? : Stop → Option String
  | .failed (.store (.undefined x)) => some x
  | .failed (.store (.undeclared x)) => some x
  | _ => none

variable {α β : Type}

/-- The run asks for no variable and changes none. -/
def Quiet (r : Run α) : Prop := ∀ w,
  match r w with
  | .ok _ w' => w'.store = w.store ∧ w'.functions = w.functions
  | .error e _ => e.unbound? = none

namespace Quiet
variable {r : Run α}

theorem pure (a : α) : Quiet (pure a : Run α) := fun _ => ⟨rfl, rfl⟩

theorem fail {e : Error} (h : Stop.unbound? (.failed e) = none) : Quiet (Run.fail e : Run α) := fun _ => h

theorem bind {k : α → Run β} (h : Quiet r) (hk : ∀ a, Quiet (k a)) : Quiet (r >>= k) := by
  intro w
  have hr := h w
  cases hw : r w with
  | ok a w₁ =>
    rw [hw] at hr
    rw [State.bind_of_ok hw]
    have hka := hk a w₁
    cases hw₁ : k a w₁ with
    | ok c w₂ =>
      rw [hw₁] at hka
      exact ⟨hka.1.trans hr.1, hka.2.trans hr.2⟩
    | error e w₂ =>
      rw [hw₁] at hka
      exact hka
  | error e w₁ =>
    rw [hw] at hr
    rw [State.bind_of_error hw]
    exact hr

theorem map {f : α → β} (h : Quiet r) : Quiet (f <$> r) := h.bind fun _ => .pure _

theorem record (e : Event) : Quiet (Run.record e) := by
  intro w
  obtain ⟨events, h⟩ := w.record_eq e
  show (w.record e).store = w.store ∧ (w.record e).functions = w.functions
  rw [h]
  exact ⟨rfl, rfl⟩

theorem printValue (v : Value) : Quiet (printValue v) := by
  unfold Execution.printValue
  split
  · exact .fail rfl
  · exact fun _ => ⟨rfl, rfl⟩

theorem operate (v : Except OperationError Value) : Quiet (Run.operate v) := by
  unfold Run.operate
  split
  · exact .pure _
  · exact .fail rfl

theorem widen (v : Value) (t : Ty) : Quiet (Run.widen v t) := by
  unfold Run.widen
  split
  · exact .pure _
  · exact .fail rfl

theorem require (v : Value) (t : Ty) {otherwise : Ty → Error}
    (h : ∀ u, Stop.unbound? (.failed (otherwise u)) = none) : Quiet (Run.require v t otherwise) := by
  refine (widen v t).bind fun u => ?_
  split
  · exact .pure _
  · exact .fail (h _)

theorem asBool (op : BinaryOp) (v : Value) : Quiet (asBool op v) := by
  unfold Execution.asBool
  split
  · exact .pure _
  · exact .fail rfl

theorem asCondition (construct : Construct) (v : Value) : Quiet (asCondition construct v) := by
  unfold Execution.asCondition
  split
  · exact (record _).bind fun _ => .pure _
  · exact .fail rfl

theorem reportCall (name : String) (vs : List Value) : Quiet (reportCall name vs) := by
  have htexts : ∀ index, Quiet (requireTexts index vs) := by
    induction vs with
    | nil => exact fun _ => .pure _
    | cons v vs ih =>
      intro index
      unfold requireTexts
      split
      · exact .fail rfl
      · exact ih (index + 1)
  exact (htexts 0).bind fun _ => .record _

theorem resultOf (f : Function) (flow : Flow) : Quiet (resultOf f flow) := by
  unfold Execution.resultOf
  split
  · split
    · exact .fail rfl
    · exact .pure _
  · split
    · exact (require _ _ fun _ => rfl).map
    · exact .fail rfl

end Quiet

/-! ### Runs that find their variables -/

/-- The functions of the program are defined, and the variables of the context are covered. -/
structure World.Ready (p : Program) (Γ : Context) (w : World) : Prop where
  covers : Covers Γ w.store
  functions : ∀ f ∈ p.functions, w.functions.get? f.name = some f

/-- If a variable is missing, then a call is active, and it is a global. -/
def Blame.Excused (e : Blame) : Prop := ∀ x ∈ e.stop.unbound?, e.depth ≠ 0 ∧ e.context.IsGlobal x

/-- From a world that `P` describes the run ends as `Q` says, or it stops with an excuse. -/
def Finds (P : World → Prop) (r : Located α) (Q : α → World → Prop) : Prop := ∀ w, P w →
  match r w with
  | .ok a w' => Q a w'
  | .error e _ => e.Excused

namespace Finds
variable {P P' : World → Prop} {Q Q' : α → World → Prop} {R : β → World → Prop} {r : Located α}

theorem pure {a : α} (h : ∀ w, P w → Q a w) : Finds P (pure a : Located α) Q := h

theorem bind {k : α → Located β} (h : Finds P r Q) (hk : ∀ a, Finds (Q a) (k a) R) : Finds P (r >>= k) R := by
  intro w hw
  have hr := h w hw
  cases hrun : r w with
  | ok a w' =>
    rw [hrun] at hr
    rw [State.bind_of_ok hrun]
    exact hk a w' hr
  | error e w' =>
    rw [hrun] at hr
    rw [State.bind_of_error hrun]
    exact hr

theorem mono (h : Finds P r Q) (hP : ∀ w, P' w → P w) (hQ : ∀ a w, Q a w → Q' a w) : Finds P' r Q' := by
  intro w hw
  have hr := h w (hP w hw)
  cases hrun : r w with
  | ok a w' =>
    rw [hrun] at hr
    exact hQ a w' hr
  | error e w' =>
    rw [hrun] at hr
    exact hr

/-- What is known beforehand for its own sake. -/
theorem assuming {A : Prop} (h : A → Finds P r Q) : Finds (fun w => P w ∧ A) r Q := fun w hw => h hw.2 w hw.1

theorem discard {Q : World → Prop} (h : Finds P r fun _ => Q) : Finds P (discard r : Located PUnit) fun _ => Q :=
  h.bind fun _ => .pure fun _ hw => hw

variable {p : Program} {Γ : Context}

theorem step {r : Run α} (h : ∀ w, P w →
    match r w with
    | .ok a w' => Q a w'
    | .error e _ => Blame.Excused ⟨e, Γ, w.store.depth⟩) : Finds P (Located.step Γ r) Q := by
  intro w hw
  have hr := h w hw
  unfold Located.step
  cases hrun : r w with
  | ok a w' =>
    rw [hrun] at hr
    exact hr
  | error e w' =>
    rw [hrun] at hr
    exact hr

end Finds

theorem Blame.excused_of_none {e : Blame} (h : e.stop.unbound? = none) : e.Excused := by
  intro x hx
  rw [h] at hx
  cases hx

namespace Finds
variable {p : Program} {Γ : Context} {x : String} {t : Ty}

theorem quiet {r : Run α} (h : Quiet r) :
    Finds (World.Ready p Γ) (Located.step Γ r) fun _ => World.Ready p Γ := by
  refine .step fun w hw => ?_
  have hr := h w
  cases hrun : r w with
  | ok a w' =>
    rw [hrun] at hr
    exact ⟨hr.1 ▸ hw.covers, hr.2 ▸ hw.functions⟩
  | error e w' =>
    rw [hrun] at hr
    exact Blame.excused_of_none hr

theorem fail {e : Error} {Q : α → World → Prop} (h : Stop.unbound? (.failed e) = none) :
    Finds (World.Ready p Γ) (Located.step Γ (Run.fail e)) Q :=
  .step fun _ _ => Blame.excused_of_none h

end Finds

/-! ### Steps -/

/-- The name for which the store has no binding is one that stands for a variable of the context. -/
theorem World.Ready.excused {p : Program} {Γ : Context} {w : World} (hw : w.Ready p Γ) {x : String} {t : Ty}
    (hx : Γ.names.type? x = some t) (hnone : w.store.current.get? x = none) {e : Stop}
    (he : ∀ y ∈ e.unbound?, y = x) : Blame.Excused ⟨e, Γ, w.store.depth⟩ :=
  fun y hy => he y hy ▸ hw.covers.isGlobal hx hnone

theorem Store.get?_of_lookup_error {s : Store} {x : String} {e : StoreError} (h : s.lookup x = .error e) :
    s.current.get? x = none ∧ e = .undefined x := by
  unfold Store.lookup at h
  split at h
  · cases h
  · next hx =>
    cases h
    exact ⟨hx, rfl⟩

theorem Store.get?_of_assignable_error {s : Store} {x : String} {e : StoreError} (h : s.assignable x = .error e) :
    s.current.get? x = none ∧ e = .undeclared x := by
  unfold Store.assignable at h
  split at h
  · cases h
  · next hx =>
    cases h
    obtain ⟨hframe, hglobal⟩ := Option.or_eq_none_iff.mp hx
    obtain ⟨globals, frames⟩ := s
    cases frames with
    | nil => exact ⟨hglobal, rfl⟩
    | cons f fs => exact ⟨hframe, rfl⟩

theorem Store.get?_of_set_error {s : Store} {x : String} {v : Value} {e : StoreError} (h : s.set x v = .error e) :
    s.current.get? x = none ∧ e = .undeclared x ∨ ∃ t, e = .wrongType x t v.ty := by
  unfold Store.set at h
  cases hassign : s.assignable x with
  | error e' =>
    rw [hassign] at h
    cases h
    exact .inl (Store.get?_of_assignable_error hassign)
  | ok c =>
    rw [hassign] at h
    simp only [bind, Except.bind] at h
    split at h
    · cases h
      exact .inr ⟨c.ty, rfl⟩
    · split at h <;> cases h

namespace Finds
variable {p : Program} {Γ : Context} {x : String} {t : Ty}

theorem get (hx : Γ.names.type? x = some t) :
    Finds (World.Ready p Γ) (Located.step Γ (Run.ask fun s => s.get x)) fun _ => World.Ready p Γ := by
  refine .step fun w hw => ?_
  rw [Run.ask_eq]
  cases hlookup : w.store.lookup x with
  | error e =>
    obtain ⟨hnone, rfl⟩ := Store.get?_of_lookup_error hlookup
    have hget : w.store.get x = .error (.undefined x) := by rw [Store.get, hlookup]; rfl
    rw [hget]
    exact hw.excused hx hnone fun y hy => (Option.some.inj hy).symm
  | ok c =>
    cases hvalue : c.value with
    | none =>
      have hget : w.store.get x = .error (.unassigned x) := by
        simp only [Store.get, hlookup, Bind.bind, Except.bind, hvalue]
      rw [hget]
      exact Blame.excused_of_none rfl
    | some v =>
      have hget : w.store.get x = .ok v := by
        simp only [Store.get, hlookup, Bind.bind, Except.bind, hvalue]
      rw [hget]
      exact hw

theorem target (hx : Γ.names.type? x = some t) :
    Finds (World.Ready p Γ) (Located.step Γ (Watched.targetType x)) fun _ => World.Ready p Γ := by
  refine .step fun w hw => ?_
  rw [targetType_eq]
  cases hassign : w.store.assignable x with
  | error e =>
    obtain ⟨hnone, rfl⟩ := Store.get?_of_assignable_error hassign
    exact hw.excused hx hnone fun y hy => (Option.some.inj hy).symm
  | ok c => exact hw

/-- Behind a declaration its variable is covered. -/
theorem declare (x : String) (t : Ty) (v : Option Value) :
    Finds (World.Ready p Γ) (Located.step Γ (declareVariable x t v)) fun _ =>
      World.Ready p (Γ.declare x (.variable t)) := by
  refine .step fun w hw => ?_
  obtain ⟨events, hrun⟩ := declareVariable_eq x t v w
  rw [hrun]
  exact ⟨hw.covers.declare x t v, hw.functions⟩

theorem assign (hx : Γ.names.type? x = some t) (v : Value) :
    Finds (World.Ready p Γ) (Located.step Γ (assignVariable x v)) fun _ => World.Ready p Γ := by
  refine .step fun w hw => ?_
  rw [assignVariable_eq]
  cases hset : w.store.set x v with
  | ok s => exact ⟨hw.covers.retyped (.set hset), hw.functions⟩
  | error e =>
    rcases Store.get?_of_set_error hset with ⟨hnone, rfl⟩ | ⟨u, rfl⟩
    · exact hw.excused hx hnone fun y hy => (Option.some.inj hy).symm
    · exact Blame.excused_of_none rfl

theorem input (hx : Γ.names.type? x = some t) :
    Finds (World.Ready p Γ) (Located.step Γ (readVariable x)) fun _ => World.Ready p Γ := by
  refine .step fun w hw => ?_
  rw [readVariable_eq]
  cases hlookup : w.store.lookup x with
  | error e =>
    obtain ⟨hnone, rfl⟩ := Store.get?_of_lookup_error hlookup
    exact hw.excused hx hnone fun y hy => (Option.some.inj hy).symm
  | ok c =>
    cases hline : World.nextLine? w.input with
    | none => exact Blame.excused_of_none rfl
    | some l =>
      dsimp only
      cases Value.read c.ty l.1 with
      | error e => exact Blame.excused_of_none rfl
      | ok v => exact ⟨hw.covers.retyped (.redeclare hlookup (some v)), hw.functions⟩

/-- The function that a call of a declared name finds is the one of the program. -/
theorem callee {b : Bounds} (hΓ : Γ.Calls p) {g : Function} (hx : Γ.names.function? x = some g) (arity : Nat) :
    Finds (World.Ready p Γ) (Located.step Γ (Watched.callee b x arity)) fun f w =>
      w.Ready p Γ ∧ f ∈ p.functions ∧ arity = f.params.length := by
  refine .step fun w hw => ?_
  obtain ⟨f, hf, rfl⟩ := hΓ.exists_function hx
  rw [callee_eq]
  cases hcallable : callable b w.functions w.store.depth f.name arity with
  | ok f' =>
    obtain ⟨hget, harity, -⟩ := callable_eq_ok hcallable
    rw [hw.functions f hf] at hget
    cases hget
    exact ⟨hw, hf, harity⟩
  | error e =>
    unfold callable at hcallable
    rw [hw.functions f hf] at hcallable
    dsimp only at hcallable
    split at hcallable
    · cases hcallable
      exact Blame.excused_of_none rfl
    · split at hcallable
      · cases hcallable
        exact Blame.excused_of_none rfl
      · cases hcallable

/-- A run in a frame of its own that covers another context. -/
theorem inFrame {Γ' : Context} {frame : Frame} {r : Located α} {D : List (String × Ty)}
    (hframe : ∀ s : Store, Covers Γ' (s.push frame)) (h : Finds (World.Ready p Γ') r fun _ => World.Ready p Γ')
    (hkept : Retypes D r.run) : Finds (World.Ready p Γ) (Located.inFrame frame r) fun _ => World.Ready p Γ := by
  intro w hw
  have hr := h { w with store := w.store.push frame } ⟨hframe w.store, hw.functions⟩
  have hstore := hkept { w with store := w.store.push frame }
  unfold Located.inFrame
  cases hrun : r { w with store := w.store.push frame } with
  | ok a w' =>
    rw [hrun] at hr
    have hend : r.run { w with store := w.store.push frame } = .ok a w' := by rw [Located.run, hrun]
    rw [Run.run_of_ok hend] at hstore
    exact ⟨hw.covers.retyped hstore.dropFrame, hr.functions⟩
  | error e w' =>
    rw [hrun] at hr
    exact hr

end Finds

/-! ### Loops and arguments -/

theorem World.Ready.of_after {p : Program} {Γ : Context} {w : World} (s : Stmt) (h : w.Ready p (Γ.after s)) :
    w.Ready p Γ := ⟨.of_after s h.covers, h.functions⟩

namespace Finds
variable {p : Program} {Γ : Context}

theorem sequence {run : Context → Stmt → Located Flow} {result : Option Ty} {ss : List Stmt} (hΓ : Γ.Calls p)
    (hrun : ∀ Γ s, Γ.Calls p → Admits result Γ s → Finds (World.Ready p Γ) (run Γ s) fun _ => World.Ready p (Γ.after s))
    (h : AdmitsAll result Γ ss) :
    Finds (World.Ready p Γ) (Located.sequence run Γ ss) fun _ => World.Ready p Γ := by
  induction ss generalizing Γ with
  | nil => exact .pure fun _ hw => hw
  | cons s ss ih =>
    cases h with
    | cons hs hss =>
      refine (hrun Γ s hΓ hs).bind fun flow => ?_
      cases flow with
      | normal => exact (ih (hΓ.after s) hss).mono (fun _ hw => hw) fun _ _ => .of_after s
      | returning v => exact .pure fun _ => .of_after s

theorem repeatWhile {condition : Located Bool} {body : Located Flow} {after : Located Unit}
    (hc : Finds (World.Ready p Γ) condition fun _ => World.Ready p Γ)
    (hb : Finds (World.Ready p Γ) body fun _ => World.Ready p Γ)
    (ha : Finds (World.Ready p Γ) after fun _ => World.Ready p Γ) (rounds : Nat) :
    Finds (World.Ready p Γ) (Located.repeatWhile Γ condition body after rounds) fun _ => World.Ready p Γ := by
  induction rounds with
  | zero => exact .step fun _ _ => Blame.excused_of_none rfl
  | succ rounds ih =>
    refine hc.bind fun holds => ?_
    split
    · refine hb.bind fun flow => ?_
      split
      · exact .pure fun _ hw => hw
      · exact ha.bind fun _ => ih
    · exact .pure fun _ hw => hw

theorem bindArguments {run : Expr → Located Value} {args : List Expr}
    (h : ∀ e ∈ args, Finds (World.Ready p Γ) (run e) fun _ => World.Ready p Γ) (name : String) (index : Nat)
    {params : List Param} (hlength : args.length = params.length) :
    Finds (World.Ready p Γ) (Located.bindArguments Γ run name index params args) fun entries w =>
      w.Ready p Γ ∧ entries.map Prod.fst = params.map Param.name := by
  induction params generalizing index args with
  | nil =>
    cases List.length_eq_zero_iff.mp hlength
    exact .pure fun _ hw => ⟨hw, rfl⟩
  | cons q params ih =>
    cases args with
    | nil => cases hlength
    | cons e args =>
      rw [List.forall_mem_cons] at h
      refine h.1.bind fun v => (Finds.quiet (.require v q.ty fun _ => rfl)).bind fun v => ?_
      refine (ih h.2 (index + 1) (Nat.succ.inj hlength)).bind fun rest => .pure fun w hw => ⟨hw.1, ?_⟩
      rw [List.map_cons, List.map_cons, hw.2]

end Finds

/-- The frame of a call covers the home of its function. -/
theorem covers_of_atHome {p : Program} {Γ : Context} {f : Function} (h : AtHome p Γ f) {entries : List (String × Binding)}
    (hentries : entries.map Prod.fst = f.params.map Param.name) (s : Store) :
    Covers Γ (s.push (Assoc.ofList entries)) where
  inner scope hscope x hx := Assoc.has_ofList (hentries ▸ h.inner scope hscope x hx)
  top hs := absurd hs (List.cons_ne_nil _ _)

end Execution
end TypedImp
