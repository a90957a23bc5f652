import TypedImp.Proofs.Execution.Retyping
import TypedImp.Proofs.Value.Operation

/-! Runs of programs that keep the typing rules. Every variable of the store has the type that its name stands
    for and a value of that type, if it has one; no step of such a run breaks this, and none fails for a reason
    that a check of types can foresee. -/

namespace TypedImp
namespace Execution
open Typing (Names HasType ArgumentsFit Keeps FunctionKeeps)

variable {Γ : Names} {α β : Type}

/-! ### Failures -/

/-- The failures that no check of types can foresee: an operator that has no result for the values of its
    operands, input that cannot be read or is missing, a variable that is not bound or has no value yet, a
    function that ends without the value it promises, and calls that nest too deep. -/
inductive Error.Dynamic : Error → Prop
  | operation {e : OperationError} : e.OfValue → Dynamic (.operation e)
  | undefined {x : String} : Dynamic (.store (.undefined x))
  | unassigned {x : String} : Dynamic (.store (.unassigned x))
  | undeclared {x : String} : Dynamic (.store (.undeclared x))
  | invalidInput {x : String} {e : InputError} : (∀ name, e ≠ .noReading name) → Dynamic (.invalidInput x e)
  | missingReturn {f : String} {t : Ty} : t ≠ .void → Dynamic (.missingReturn f t)
  | depthExceeded {limit : Int} {f : String} : Dynamic (.depthExceeded limit f)
  | stackExhausted : Dynamic .stackExhausted
  | endOfInput : Dynamic .endOfInput

/-- A loop that is given too few rounds is no failure of the program. -/
def Stop.Dynamic : Stop → Prop
  | .failed e => e.Dynamic
  | .outOfFuel => True

/-! ### Typed stores -/

/-- The binding of a variable agrees with what its name stands for. -/
def BindingTyped (Γ : Names) (x : String) (b : Binding) : Prop :=
  Γ.type? x = some b.ty ∧ ∀ v, b.value = some v → v.HasTy b.ty

def FrameTyped (Γ : Names) (f : Frame) : Prop := ∀ e ∈ f, BindingTyped Γ e.1 e.2

/-- Every binding agrees with what its name stands for, and so does every function. -/
structure World.Typed (Γ : Names) (w : World) : Prop where
  globals : FrameTyped Γ w.store.globals
  frames : ∀ f ∈ w.store.frames, FrameTyped Γ f
  functions : ∀ x, w.functions.get? x = Γ.function? x

theorem FrameTyped.get? {f : Frame} (h : FrameTyped Γ f) {x : String} {b : Binding} (hx : f.get? x = some b) :
    BindingTyped Γ x b := h (x, b) (Assoc.mem_of_get? hx)

theorem FrameTyped.insert {f : Frame} (h : FrameTyped Γ f) {x : String} {b : Binding} (hb : BindingTyped Γ x b) :
    FrameTyped Γ (Assoc.insert f x b) := by
  intro e he
  rcases Assoc.mem_insert he with rfl | he
  · exact hb
  · exact h e he

theorem FrameTyped.ofList {entries : List (String × Binding)} (h : FrameTyped Γ entries) :
    FrameTyped Γ (Assoc.ofList entries) := fun e he => h e (Assoc.mem_ofList he)

theorem World.functions_record (w : World) (e : Event) : (w.record e).functions = w.functions := by
  unfold World.record
  split
  · rfl
  · rfl

namespace World.Typed
variable {w w' : World}

theorem current (h : w.Typed Γ) : FrameTyped Γ w.store.current := by
  unfold Store.current
  cases hframes : w.store.frames with
  | nil => exact h.globals
  | cons f fs => exact h.frames f (by simp [hframes])

/-- What a world holds besides its store and its functions does not count. -/
theorem congr (h : w.Typed Γ) (hstore : w'.store = w.store) (hfunctions : w'.functions = w.functions) :
    w'.Typed Γ where
  globals := hstore ▸ h.globals
  frames := hstore ▸ h.frames
  functions := hfunctions ▸ h.functions

theorem mapCurrent (h : w.Typed Γ) {x : String} {b : Binding} (hb : BindingTyped Γ x b) :
    ({ w with store := w.store.mapCurrent fun frame => frame.insert x b } : World).Typed Γ := by
  obtain ⟨⟨globals, frames⟩, functions, input, output, tracing, events⟩ := w
  cases frames with
  | nil => exact ⟨h.globals.insert hb, h.frames, h.functions⟩
  | cons f fs =>
    have hframes := List.forall_mem_cons.mp h.frames
    exact ⟨h.globals, List.forall_mem_cons.mpr ⟨hframes.1.insert hb, hframes.2⟩, h.functions⟩

theorem lookup (h : w.Typed Γ) {x : String} {b : Binding} (hx : w.store.lookup x = .ok b) : BindingTyped Γ x b := by
  unfold Store.lookup at hx
  split at hx
  · next c hc =>
    cases hx
    exact h.current.get? hc
  · cases hx

theorem assignable (h : w.Typed Γ) {x : String} {b : Binding} (hx : w.store.assignable x = .ok b) :
    BindingTyped Γ x b := by
  rcases Store.assignable_eq_ok hx with ⟨-, hget⟩ | ⟨-, hget⟩
  · exact h.current.get? hget
  · exact h.globals.get? hget

theorem set (h : w.Typed Γ) {x : String} {v : Value} {t : Ty} (hv : v.HasTy t) {s : Store}
    (hs : w.store.set x v = .ok s) : ({ w with store := s } : World).Typed Γ := by
  obtain ⟨b, hty, ⟨hget, rfl⟩ | ⟨hget, rfl⟩⟩ := Store.set_eq_ok hs
  · have hb := h.current.get? hget
    refine h.mapCurrent ⟨hb.1, fun v' hv' => ?_⟩
    cases hv'
    rwa [← hty, hv.ty_eq]
  · have hb := h.globals.get? hget
    refine ⟨h.globals.insert ⟨hb.1, fun v' hv' => ?_⟩, h.frames, h.functions⟩
    cases hv'
    rwa [← hty, hv.ty_eq]

end World.Typed

/-! ### Safe runs -/

/-- From the world `w` the run ends with an answer that `P` describes in a typed world, or it stops for a
    reason that no check of types can foresee. -/
def SafeAt (Γ : Names) (r : Run α) (P : α → Prop) (w : World) : Prop :=
  match r w with
  | .ok a w' => P a ∧ w'.Typed Γ
  | .error s _ => s.Dynamic

def Safe (Γ : Names) (r : Run α) (P : α → Prop) : Prop := ∀ w, w.Typed Γ → SafeAt Γ r P w

section Runs
variable {P : α → Prop} {Q : β → Prop} {r : Run α} {w w' : World}

theorem safeAt_of_ok {a : α} (h : r w = .ok a w') (ha : P a) (hw' : w'.Typed Γ) : SafeAt Γ r P w := by
  unfold SafeAt
  rw [h]
  exact ⟨ha, hw'⟩

theorem safeAt_of_error {s : Stop} (h : r w = .error s w') (hs : s.Dynamic) : SafeAt Γ r P w := by
  unfold SafeAt
  rw [h]
  exact hs

theorem SafeAt.bind {k : α → Run β} (h : SafeAt Γ r P w)
    (hk : ∀ a w', P a → w'.Typed Γ → SafeAt Γ (k a) Q w') : SafeAt Γ (r >>= k) Q w := by
  unfold SafeAt at h ⊢
  cases hr : r w with
  | ok a w' =>
    rw [hr] at h
    rw [State.bind_of_ok hr]
    exact hk a w' h.1 h.2
  | error s w' =>
    rw [hr] at h
    rw [State.bind_of_error hr]
    exact h

namespace Safe

theorem bind {k : α → Run β} (h : Safe Γ r P) (hk : ∀ a, P a → Safe Γ (k a) Q) : Safe Γ (r >>= k) Q :=
  fun w hw => (h w hw).bind fun a w' ha hw' => hk a ha w' hw'

theorem pure {a : α} (h : P a) : Safe Γ (pure a : Run α) P := fun _ hw => ⟨h, hw⟩

theorem fail {e : Error} (h : e.Dynamic) : Safe Γ (Run.fail e : Run α) P := fun _ _ => h

theorem discard (h : Safe Γ r P) : Safe Γ (discard r) fun _ => True :=
  h.bind fun _ _ => .pure (P := fun _ => True) trivial

theorem record (e : Event) : Safe Γ (Run.record e) fun _ => True := by
  intro w hw
  exact ⟨trivial, hw.congr (World.store_record w e) (World.functions_record w e)⟩

theorem look : Safe Γ (get : Run World) (World.Typed Γ) := fun _ hw => ⟨hw, hw⟩

/-- A change that keeps the world typed. -/
theorem change {f : World → World} (h : ∀ w : World, w.Typed Γ → (f w).Typed Γ) :
    Safe Γ (modify f : Run Unit) fun _ => True := fun w hw => ⟨trivial, h w hw⟩

/-- A question to the store. -/
theorem ask {question : Store → Except StoreError α}
    (h : ∀ w : World, w.Typed Γ → (∃ a, question w.store = .ok a ∧ P a) ∨
      ∃ e, question w.store = .error e ∧ Error.Dynamic (.store e)) : Safe Γ (Run.ask question) P := by
  intro w hw
  rcases h w hw with ⟨a, hask, ha⟩ | ⟨e, hask, he⟩
  · exact safeAt_of_ok (Run.ask_of_ok hask) ha hw
  · exact safeAt_of_error (Run.ask_of_error hask) he

theorem operate {v : Except OperationError Value} {t : Ty} (h : Value.Gives v t) :
    Safe Γ (Run.operate v) (·.HasTy t) := by
  rcases h with ⟨v, rfl, hv⟩ | ⟨e, rfl, he⟩
  · exact pure hv
  · exact fail (.operation he)

theorem widen {v : Value} {s t : Ty} (hv : v.HasTy s) (ht : t.accepts s = true) :
    Safe Γ (Run.widen v t) (·.HasTy t) := by
  obtain ⟨v', hwiden, hv'⟩ := hv.widen ht
  rw [Run.widen, hwiden]
  exact pure hv'

theorem require {v : Value} {s t : Ty} (hv : v.HasTy s) (ht : t.accepts s = true) (otherwise : Ty → Error) :
    Safe Γ (Run.require v t otherwise) (·.HasTy t) := by
  refine (widen hv ht).bind fun v' hv' => ?_
  rw [if_pos hv'.ty_eq]
  exact pure hv'

theorem inFrame {frame : Frame} (hframe : FrameTyped Γ frame) (h : Safe Γ r P) : Safe Γ (Run.inFrame frame r) P := by
  intro w hw
  have hpush : ({ w with store := w.store.push frame } : World).Typed Γ :=
    ⟨hw.globals, List.forall_mem_cons.mpr ⟨hframe, hw.frames⟩, hw.functions⟩
  have hr := h _ hpush
  unfold SafeAt Run.inFrame at *
  cases hrun : r { w with store := w.store.push frame } with
  | ok a w' =>
    rw [hrun] at hr
    exact ⟨hr.1, hr.2.globals, fun f hf => hr.2.frames f (List.mem_of_mem_tail hf), hr.2.functions⟩
  | error s w' =>
    rw [hrun] at hr
    exact hr

end Safe
end Runs

/-! ### Steps -/

section Steps
variable {x : String} {t : Ty}

theorem lookup_eq_error {s : Store} {e : StoreError} (h : s.lookup x = .error e) : e = .undefined x := by
  unfold Store.lookup at h
  split at h
  · cases h
  · cases h
    rfl

theorem assignable_eq_error {s : Store} {e : StoreError} (h : s.assignable x = .error e) : e = .undeclared x := by
  unfold Store.assignable at h
  split at h
  · cases h
  · cases h
    rfl

theorem lookup_safe (hx : Γ.type? x = some t) : Safe Γ (Run.ask fun s => s.lookup x) (·.ty = t) := by
  refine .ask fun w hw => ?_
  cases hlookup : w.store.lookup x with
  | ok b => exact .inl ⟨b, rfl, Option.some.inj ((hw.lookup hlookup).1.symm.trans hx)⟩
  | error e => exact .inr ⟨e, rfl, lookup_eq_error hlookup ▸ .undefined⟩

theorem assignable_safe (hx : Γ.type? x = some t) : Safe Γ (Run.ask fun s => s.assignable x) (·.ty = t) := by
  refine .ask fun w hw => ?_
  cases hassign : w.store.assignable x with
  | ok b => exact .inl ⟨b, rfl, Option.some.inj ((hw.assignable hassign).1.symm.trans hx)⟩
  | error e => exact .inr ⟨e, rfl, assignable_eq_error hassign ▸ .undeclared⟩

theorem getVariable_safe (hx : Γ.type? x = some t) : Safe Γ (Run.ask fun s => s.get x) (·.HasTy t) := by
  refine .ask fun w hw => ?_
  unfold Store.get
  cases hlookup : w.store.lookup x with
  | error e => exact .inr ⟨e, rfl, lookup_eq_error hlookup ▸ .undefined⟩
  | ok b =>
    have hb := hw.lookup hlookup
    have hty : b.ty = t := Option.some.inj (hb.1.symm.trans hx)
    cases hvalue : b.value with
    | none => exact .inr ⟨.unassigned x, by simp only [bind, Except.bind, hvalue], .unassigned⟩
    | some v => exact .inl ⟨v, by simp only [bind, Except.bind, hvalue], hty ▸ hb.2 v hvalue⟩

theorem declareVariable_safe {v : Option Value} (hx : BindingTyped Γ x ⟨t, v⟩) :
    Safe Γ (declareVariable x t v) fun _ => True :=
  (Safe.change fun _ hw => hw.mapCurrent hx).bind fun _ _ => .record _

/-- A typed value is never refused by its variable. -/
theorem assignVariable_safe (hx : Γ.type? x = some t) {v : Value} (hv : v.HasTy t) :
    Safe Γ (assignVariable x v) fun _ => True := by
  intro w hw
  have hset : (∃ s, w.store.set x v = .ok s) ∨ w.store.set x v = .error (.undeclared x) := by
    unfold Store.set
    cases hb : w.store.assignable x with
    | error e => exact .inr (assignable_eq_error hb ▸ rfl)
    | ok b =>
      have hty : b.ty = t := Option.some.inj ((hw.assignable hb).1.symm.trans hx)
      simp only [bind, Except.bind, hv.ty_eq, hty, ne_eq, not_true, if_false]
      split
      · exact .inl ⟨_, rfl⟩
      · exact .inl ⟨_, rfl⟩
  unfold assignVariable
  rcases hset with ⟨s, hset⟩ | hset
  · have hask : Run.ask (fun s => s.set x v) w = .ok s w := Run.ask_of_ok hset
    have hrun := State.bind_of_ok (k := Run.setStore) hask
    exact safeAt_of_ok hrun trivial (hw.set hv hset)
  · have hask : Run.ask (fun s => s.set x v) w = .error (.failed (.store (.undeclared x))) w := Run.ask_of_error hset
    have hrun := State.bind_of_error (k := Run.setStore) hask
    exact safeAt_of_error hrun .undeclared

theorem write_safe (text : String) : Safe Γ (modify fun w => w.write text : Run Unit) fun _ => True :=
  .change fun _ hw => hw.congr rfl rfl

theorem printValue_safe {v : Value} (hv : v.HasTy t) : Safe Γ (printValue v) fun _ => True := by
  rw [printValue, Value.isTooLong_eq_false hv.notText?]
  exact write_safe _

theorem World.functions_readLine? {w w' : World} {line : String} (h : w.readLine? = some (line, w')) :
    w'.functions = w.functions := by
  unfold World.readLine? at h
  split at h
  · cases h
  · cases h
    rfl

theorem readVariable_safe (hx : Γ.type? x = some t) (ht : t ≠ .void) :
    Safe Γ (readVariable x) fun _ => True := by
  refine (lookup_safe hx).bind fun b hb => ?_
  refine (write_safe _).bind fun _ _ => Safe.look.bind fun w hw => ?_
  split
  · exact .fail .endOfInput
  · next line w' hline =>
    have hw' : w'.Typed Γ := hw.congr (World.store_readLine? hline) (World.functions_readLine? hline)
    have hset : Safe Γ (set w' : Run PUnit) fun _ => True := fun _ _ => ⟨trivial, hw'⟩
    refine hset.bind fun _ _ => ?_
    rcases Value.read_gives ht line with ⟨v, hread, hv⟩ | ⟨e, hread, he⟩
    · rw [hb, hread]
      refine .change fun w hw => hw.mapCurrent ⟨hx, fun u hu => ?_⟩
      cases hu
      exact hv
    · rw [hb, hread]
      exact .fail (.invalidInput he)

theorem asCondition_safe {construct : Construct} {v : Value} (hv : v.HasTy .bool) :
    Safe Γ (asCondition construct v) fun _ => True := by
  obtain ⟨c, rfl⟩ := hv.eq_bool
  exact (Safe.record _).bind fun _ _ => .pure trivial

theorem asBool_safe {op : BinaryOp} {v : Value} (hv : v.HasTy .bool) : Safe Γ (asBool op v) fun _ => True := by
  obtain ⟨c, rfl⟩ := hv.eq_bool
  exact .pure trivial

end Steps

/-! ### Loops and calls -/

/-- What a flow may return where the function around it has the given result type. -/
inductive FlowTyped (result : Option Ty) : Flow → Prop
  | normal : FlowTyped result .normal
  | none : result = some .void → FlowTyped result (.returning none)
  | some {v : Value} {s t : Ty} :
      result = some t → t ≠ .void → v.HasTy s → t.accepts s = true → FlowTyped result (.returning (some v))

/-- What a call of a function with the given result type gives. -/
def ResultTyped (t : Ty) (o : Option Value) : Prop :=
  match o with
  | none => t = .void
  | some v => v.HasTy t

theorem sequence_safe {run : Stmt → Run Flow} {result : Option Ty} {ss : List Stmt}
    (h : ∀ s ∈ ss, Safe Γ (run s) (FlowTyped result)) : Safe Γ (sequence run ss) (FlowTyped result) := by
  induction ss with
  | nil => exact .pure .normal
  | cons s ss ih =>
    rw [List.forall_mem_cons] at h
    refine h.1.bind fun flow hflow => ?_
    split
    · exact ih h.2
    · exact .pure hflow

theorem repeatWhile_safe {condition : Run Bool} {body : Run Flow} {step : Run Unit} {result : Option Ty}
    (hc : Safe Γ condition fun _ => True) (hb : Safe Γ body (FlowTyped result))
    (hs : Safe Γ step fun _ => True) (rounds : Nat) :
    Safe Γ (repeatWhile condition body step rounds) (FlowTyped result) := by
  induction rounds with
  | zero => exact fun _ _ => trivial
  | succ rounds ih =>
    rw [repeatWhile_succ]
    refine hc.bind fun holds _ => ?_
    split
    · refine hb.bind fun flow hflow => ?_
      split
      · exact .pure hflow
      · exact hs.bind fun _ _ => ih
    · exact .pure .normal

theorem bindArguments_safe {run : Expr → Run Value} {params : List Param} {args : List Expr}
    (hrun : ∀ e t, HasType Γ e t → t ≠ .void → Safe Γ (run e) (·.HasTy t))
    (hparams : ∀ p ∈ params, Γ.type? p.name = some p.ty ∧ p.ty ≠ .void) (h : ArgumentsFit Γ params args)
    (name : String) (index : Nat) : Safe Γ (bindArguments run name index params args) (FrameTyped Γ) := by
  induction params generalizing index args with
  | nil =>
    cases h
    exact .pure (by simp [FrameTyped])
  | cons p params ih =>
    cases h with
    | cons he hne haccepts hes =>
      rw [List.forall_mem_cons] at hparams
      refine (hrun _ _ he hne).bind fun v hv => (Safe.require hv haccepts _).bind fun v' hv' => ?_
      refine (ih hparams.2 hes (index + 1)).bind fun rest hrest => .pure ?_
      refine List.forall_mem_cons.mpr ⟨⟨hparams.1.1, fun u hu => ?_⟩, hrest⟩
      cases hu
      exact hv'

theorem reportCall_safe {vs : List Value} (h : ∀ v ∈ vs, v.notText? = none) (name : String) :
    Safe Γ (reportCall name vs) fun _ => True := by
  have hrequire : ∀ index, Safe Γ (requireTexts index vs) fun _ => True := by
    induction vs with
    | nil => exact fun _ => .pure trivial
    | cons v vs ih =>
      intro index
      rw [List.forall_mem_cons] at h
      unfold requireTexts
      rw [h.1]
      exact ih h.2 (index + 1)
  exact (hrequire 0).bind fun _ _ => .record _

theorem resultOf_safe {f : Function} {flow : Flow} (h : FlowTyped (some f.result) flow) :
    Safe Γ (resultOf f flow) (ResultTyped f.result) := by
  unfold resultOf
  cases h with
  | normal =>
    split
    · next hvoid => exact .pure hvoid
    · next hvoid => exact .fail (.missingReturn hvoid)
  | none hresult =>
    have hvoid := Option.some.inj hresult
    rw [if_pos hvoid]
    exact .pure hvoid
  | some hresult hne hv haccepts =>
    have ht := Option.some.inj hresult
    rw [← ht] at hne haccepts
    rw [if_neg hne]
    exact (Safe.require hv haccepts _).bind fun v' hv' => .pure hv'

/-! ### Expressions and statements -/

/-- What typed expressions, calls, statements and blocks do within a budget. -/
structure SafeWithin (Γ : Names) (b : Bounds) (n : Nat) : Prop where
  evaluate : ∀ e t, HasType Γ e t → t ≠ .void → Safe Γ (evaluate b n e) (·.HasTy t)
  call : ∀ x f args, Γ.function? x = some f → ArgumentsFit Γ f.params args →
    Safe Γ (call b n x args) (ResultTyped f.result)
  execute : ∀ result s, Keeps Γ result s → Safe Γ (execute b n s) (FlowTyped result)
  executeBlock : ∀ result ss, (∀ s ∈ ss, Keeps Γ result s) → Safe Γ (executeBlock b n ss) (FlowTyped result)

section Nested
variable {b : Bounds} {n : Nat}

/-- An operator that is none of logic runs both operands. -/
theorem SafeWithin.binary (h : SafeWithin Γ b n) {op : BinaryOp} {l r : Expr} {s t u : Ty}
    (hop : op.family ≠ .logical) (hl : HasType Γ l s) (hs : s ≠ .void) (hr : HasType Γ r t)
    (hst : s.accepts t = true)
    (hgives : ∀ v w, v.HasTy s → w.HasTy t → Value.Gives (Value.binary op v w) u) :
    Safe Γ (Execution.evaluate b (n + 1) (.binary l op r)) (·.HasTy u) := by
  have ht : t ≠ .void := by
    rintro rfl
    cases s <;> first | exact hs rfl | cases hst
  unfold Execution.evaluate
  refine (h.evaluate l s hl hs).bind fun v hv => ?_
  rw [if_neg hop]
  exact (h.evaluate r t hr ht).bind fun w hw => .operate (hgives v w hv hw)

theorem SafeWithin.evaluate_succ (h : SafeWithin Γ b n) {e : Expr} {t : Ty} (he : HasType Γ e t) (ht : t ≠ .void) :
    Safe Γ (Execution.evaluate b (n + 1) e) (·.HasTy t) := by
  cases he with
  | literal hv =>
    unfold Execution.evaluate
    exact .pure hv
  | var hx _ =>
    unfold Execution.evaluate
    exact getVariable_safe hx
  | unary hop he hnumeric =>
    unfold Execution.evaluate
    refine (h.evaluate _ _ he ht).bind fun v hv => .operate ?_
    obtain ⟨r, hr, hty⟩ := Value.unary_typed hop hv hnumeric
    exact .inl ⟨r, hr, hty⟩
  | logical hop hl hr =>
    unfold Execution.evaluate
    refine (h.evaluate _ _ hl (by decide)).bind fun l hl => ?_
    rw [if_pos hop]
    refine (asBool_safe hl).bind fun decided _ => ?_
    split
    · exact .pure hl
    · refine (h.evaluate _ _ hr (by decide)).bind fun r hr => ?_
      exact (asBool_safe hr).discard.bind fun _ _ => .pure hr
  | equality hop hl hr hne haccepts =>
    refine h.binary (by rw [hop]; decide) hl hne hr haccepts fun v w hv hw => ?_
    exact Value.binary_equality hop hv hw haccepts
  | relational hop hl hr hnumeric haccepts =>
    refine h.binary (by rw [hop]; decide) hl (by rintro rfl; cases hnumeric) hr haccepts fun v w hv hw => ?_
    exact Value.binary_relational hop hv hw hnumeric haccepts
  | arithmetic hop hl hr hnumeric haccepts =>
    refine h.binary (by rw [hop]; decide) hl ht hr haccepts fun v w hv hw => ?_
    exact Value.binary_arithmetic hop hv hw hnumeric haccepts
  | concat hl hr =>
    exact h.binary (by decide) hl (by decide) hr rfl fun v w hv hw => Value.binary_concat hv hw
  | call hf hargs =>
    unfold Execution.evaluate
    refine (h.call _ _ _ hf hargs).bind fun o ho => ?_
    cases o with
    | none => exact absurd ho ht
    | some v => exact .pure ho

/-- The arguments are run in the world of the caller, the body in a frame of its own. -/
theorem SafeWithin.call_succ (h : SafeWithin Γ b n) {x : String} {f : Function} {args : List Expr}
    (hf : Γ.function? x = some f) (hkeeps : FunctionKeeps Γ f) (hargs : ArgumentsFit Γ f.params args) :
    Safe Γ (Execution.call b (n + 1) x args) (ResultTyped f.result) := by
  unfold Execution.call
  refine Safe.look.bind fun w hw => ?_
  rw [hw.functions x, hf]
  dsimp only
  rw [if_neg (not_not_intro hargs.length_eq)]
  split
  · exact .fail .depthExceeded
  · refine (bindArguments_safe h.evaluate hkeeps.params hargs _ _).bind fun entries hentries => ?_
    have hframe := hentries.ofList
    have htexts : ∀ v ∈ (Assoc.ofList entries).filterMap fun e => e.2.value, v.notText? = none := by
      intro v hv
      obtain ⟨e, he, hvalue⟩ := List.mem_filterMap.mp hv
      exact ((hframe e he).2 v hvalue).notText?
    refine (reportCall_safe htexts _).bind fun _ _ => ?_
    exact (Safe.inFrame hframe (h.executeBlock _ _ hkeeps.body)).bind fun flow hflow => resultOf_safe hflow

theorem SafeWithin.execute_succ (h : SafeWithin Γ b n) {result : Option Ty} {s : Stmt} (hs : Keeps Γ result s) :
    Safe Γ (Execution.execute b (n + 1) s) (FlowTyped result) := by
  unfold Execution.execute
  cases hs with
  | @varDecl x t init hx hinit =>
    cases init with
    | none => exact (declareVariable_safe ⟨hx, by simp⟩).bind fun _ _ => .pure .normal
    | some e =>
      obtain ⟨s, he, hne, haccepts⟩ := hinit e rfl
      refine (h.evaluate e s he hne).bind fun v hv => (Safe.require hv haccepts _).bind fun v' hv' => ?_
      refine (declareVariable_safe ⟨hx, fun u hu => ?_⟩).bind fun _ _ => .pure .normal
      cases hu
      exact hv'
  | assign hx he =>
    obtain ⟨s, he, hne, haccepts⟩ := he
    refine (assignable_safe hx).bind fun target htarget => (h.evaluate _ s he hne).bind fun v hv => ?_
    rw [htarget]
    exact (Safe.widen hv haccepts).bind fun v' hv' => (assignVariable_safe hx hv').bind fun _ _ => .pure .normal
  | print he hne =>
    exact (h.evaluate _ _ he hne).bind fun v hv => (printValue_safe hv).bind fun _ _ => .pure .normal
  | input hx hne => exact (readVariable_safe hx hne).bind fun _ _ => .pure .normal
  | ifThen hcond hbody =>
    refine (h.evaluate _ _ hcond (by decide)).bind fun v hv => (asCondition_safe hv).bind fun holds _ => ?_
    split
    · exact h.executeBlock result _ hbody
    · exact .pure .normal
  | ifElse hcond hyes hno =>
    refine (h.evaluate _ _ hcond (by decide)).bind fun v hv => (asCondition_safe hv).bind fun holds _ => ?_
    split
    · exact h.executeBlock result _ hyes
    · exact h.executeBlock result _ hno
  | whileLoop hcond hbody =>
    refine repeatWhile_safe ?_ (h.executeBlock result _ hbody) (.pure trivial) _
    exact (h.evaluate _ _ hcond (by decide)).bind fun v hv => asCondition_safe hv
  | forLoop hinit hcond hstep hbody =>
    refine (h.execute result _ hinit).discard.bind fun _ _ => ?_
    refine repeatWhile_safe ?_ (h.executeBlock result _ hbody) (h.execute result _ hstep).discard _
    exact (h.evaluate _ _ hcond (by decide)).bind fun v hv => asCondition_safe hv
  | retNone hresult => exact .pure (.none hresult)
  | retSome hresult hne he =>
    obtain ⟨s, he, hs, haccepts⟩ := he
    exact (h.evaluate _ s he hs).bind fun v hv => .pure (.some hresult hne hv haccepts)
  | @expr e t he =>
    by_cases hcall : ∃ x args, e = .call x args
    · obtain ⟨x, args, rfl⟩ := hcall
      cases he with
      | call hf hargs => exact (h.call x _ args hf hargs).discard.bind fun _ _ => .pure .normal
    · have hne : t ≠ .void := by
        rintro rfl
        exact hcall he.isCall_of_void
      cases e with
      | call x args => exact absurd ⟨x, args, rfl⟩ hcall
      | _ => exact (h.evaluate _ t he hne).discard.bind fun _ _ => .pure .normal
  | block hbody => exact h.executeBlock result _ hbody

/-- Within every budget, if the functions keep the rules. -/
theorem safeWithin (hfunctions : ∀ x f, Γ.function? x = some f → FunctionKeeps Γ f) (b : Bounds) (n : Nat) :
    SafeWithin Γ b n := by
  induction n with
  | zero =>
    exact ⟨fun _ _ _ _ => .fail .stackExhausted, fun _ _ _ _ _ => .fail .stackExhausted,
      fun _ _ _ => .fail .stackExhausted, fun _ _ _ => .fail .stackExhausted⟩
  | succ n ih =>
    exact ⟨fun _ _ => ih.evaluate_succ, fun x f _ hf => ih.call_succ hf (hfunctions x f hf),
      fun _ _ => ih.execute_succ, fun result _ hss => sequence_safe fun s hs => ih.execute result s (hss s hs)⟩

end Nested
end Execution
end TypedImp
