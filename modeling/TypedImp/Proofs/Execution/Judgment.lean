import TypedImp.Proofs.Execution.Moments
import TypedImp.Proofs.Execution.Step
import TypedImp.Proofs.Program.Literals

/-! Judgments on runs. What is to be shown of every run is shown of its steps: of those that only compute, of
    reading, declaring and assigning a variable, of input and output, of finding the function of a call, and of
    a run in a frame of its own. If a judgment holds of them and of runs put together, it holds of every
    expression, call, statement and block. -/

namespace TypedImp
namespace Execution
open Watched (step giving callee targetType)

variable {α β : Type}

/-! ### Silent runs -/

/-- The run ends in every world in the same way, with an answer that `P` describes if it has one. Of the world
    it changes nothing but the events. -/
def Silent (r : Run α) (P : α → Prop) : Prop :=
  ∃ answer : Except Stop α, (∀ a, answer = .ok a → P a) ∧
    ∀ w, ∃ events, r w = endIn answer { w with events := events }

namespace Silent
variable {P : α → Prop} {Q : β → Prop} {r : Run α}

theorem pure {a : α} (h : P a) : Silent (pure a) P :=
  ⟨.ok a, fun _ ha => Except.ok.inj ha ▸ h, fun w => ⟨w.events, rfl⟩⟩

theorem stop (s : Stop) : Silent (fun w => .error s w : Run α) P :=
  ⟨.error s, fun _ ha => (nomatch ha), fun w => ⟨w.events, rfl⟩⟩

theorem fail (e : Error) : Silent (Run.fail e : Run α) P := stop (.failed e)

theorem record (e : Event) : Silent (Run.record e) fun _ => True := by
  refine ⟨.ok (), fun _ _ => trivial, fun w => ?_⟩
  obtain ⟨events, h⟩ := w.record_eq e
  exact ⟨events, congrArg (EStateM.Result.ok ()) h⟩

theorem bind {k : α → Run β} (h : Silent r P) (hk : ∀ a, P a → Silent (k a) Q) : Silent (r >>= k) Q := by
  obtain ⟨answer, hP, hr⟩ := h
  cases answer with
  | error s =>
    refine ⟨.error s, fun _ ha => (nomatch ha), fun w => ?_⟩
    obtain ⟨events, hw⟩ := hr w
    exact ⟨events, State.bind_of_error hw⟩
  | ok a =>
    obtain ⟨answer, hQ, hka⟩ := hk a (hP a rfl)
    refine ⟨answer, hQ, fun w => ?_⟩
    obtain ⟨events, hw⟩ := hr w
    obtain ⟨events', hw'⟩ := hka { w with events := events }
    exact ⟨events', (State.bind_of_ok hw).trans hw'⟩

theorem map {f : α → β} (h : Silent r P) (hf : ∀ a, P a → Q (f a)) : Silent (f <$> r) Q :=
  h.bind fun a ha => .pure (hf a ha)

theorem operate {v : Except OperationError Value} {P : Value → Prop} (h : ∀ u, v = .ok u → P u) :
    Silent (Run.operate v) P := by
  unfold Run.operate
  split
  · next u => exact .pure (h u rfl)
  · exact .fail _

theorem widen {v : Value} {t : Ty} {P : Value → Prop} (h : ∀ u, v.widen t = .ok u → P u) :
    Silent (Run.widen v t) P := by
  unfold Run.widen
  split
  · next u hu => exact .pure (h u hu)
  · exact .fail _

theorem require {v : Value} {t : Ty} {P : Value → Prop} (h : ∀ u, v.widen t = .ok u → P u)
    (otherwise : Ty → Error) : Silent (Run.require v t otherwise) fun u => P u ∧ u.ty = t := by
  refine (widen h).bind fun u hu => ?_
  split
  · next ht => exact .pure ⟨hu, ht⟩
  · exact .fail _

theorem asBool (op : BinaryOp) (v : Value) : Silent (asBool op v) fun _ => True := by
  unfold Execution.asBool
  split
  · exact .pure trivial
  · exact .fail _

theorem asCondition (construct : Construct) (v : Value) : Silent (asCondition construct v) fun _ => True := by
  unfold Execution.asCondition
  split
  · exact (record _).bind fun _ _ => .pure trivial
  · exact .fail _

theorem reportCall (name : String) (vs : List Value) : Silent (reportCall name vs) fun _ => True := by
  have htexts : ∀ index, Silent (requireTexts index vs) fun _ => True := by
    induction vs with
    | nil => exact fun _ => .pure trivial
    | cons v vs ih =>
      intro index
      unfold requireTexts
      split
      · exact .fail _
      · exact ih (index + 1)
  exact (htexts 0).bind fun _ _ => .record _

end Silent

/-! ### Judgments -/

/-- A flow that returns nothing but what `P` describes. -/
def Flow.All (P : Value → Prop) : Flow → Prop
  | .returning (some v) => P v
  | _ => True

/-- Every variable of a frame has a value that `P` describes, of its declared type. -/
def FrameAll (P : Value → Prop) (f : Frame) : Prop :=
  ∀ e ∈ f, ∀ v ∈ e.2.value, P v ∧ v.ty = e.2.ty

/-- A judgment on runs. `expr d r P` judges a run that is a part of an expression, `stmt d r P` one that is a part
    of a statement; where it begins `d` calls are active, and `P` describes its answer, if it has one. All values
    are such as `value` says, and `room d` is what is known where one call more may be made. -/
structure Judgment (b : Bounds) where
  value : Value → Prop
  room : Nat → Prop
  expr {α : Type} : Nat → Watched α → (α → Prop) → Prop
  stmt {α : Type} : Nat → Watched α → (α → Prop) → Prop
  value_unary {op : UnaryOp} {v u : Value} : value v → Value.unary op v = .ok u → value u
  value_binary {op : BinaryOp} {v w u : Value} : value v → value w → Value.binary op v w = .ok u → value u
  value_widen {v u : Value} {t : Ty} : value v → v.widen t = .ok u → value u
  expr_pure {α : Type} {d : Nat} {P : α → Prop} {a : α} : P a → expr d (pure a) P
  expr_silent {α : Type} {d : Nat} {P : α → Prop} {r : Run α} : Silent r P → expr d (step r) P
  expr_bind {α β : Type} {d : Nat} {P : α → Prop} {Q : β → Prop} {r : Watched α} {k : α → Watched β} :
    expr d r P → (∀ a, P a → expr d (k a) Q) → expr d (r >>= k) Q
  expr_giving {α : Type} {d : Nat} {P : α → Prop} {r : Watched α} {values : α → List Value} :
    expr d r P → (∀ a, P a → ∀ v ∈ values a, value v) → expr d (r.giving values) P
  expr_get {d : Nat} (x : String) : expr d (step (Run.ask fun s => s.get x)) value
  expr_callee {d : Nat} (x : String) (arity : Nat) :
    expr d (step (callee b x arity)) fun f => room d ∧ ∀ v ∈ Stmt.literalsAll f.body, value v
  expr_inFrame {α : Type} {d : Nat} {P : α → Prop} {frame : Frame} {r : Watched α} :
    room d → FrameAll value frame → stmt (d + 1) r P → expr d (r.inFrame frame) P
  stmt_expr {α : Type} {d : Nat} {P : α → Prop} {r : Watched α} : expr d r P → stmt d r P
  stmt_bind {α β : Type} {d : Nat} {P : α → Prop} {Q : β → Prop} {r : Watched α} {k : α → Watched β} :
    stmt d r P → (∀ a, P a → stmt d (k a) Q) → stmt d (r >>= k) Q
  stmt_target {d : Nat} (x : String) : stmt d (step (targetType x)) fun _ => True
  stmt_declare {d : Nat} (x : String) {t : Ty} {init : Option Value} :
    (∀ v ∈ init, value v ∧ v.ty = t) → stmt d (step (declareVariable x t init)) fun _ => True
  stmt_assign {d : Nat} (x : String) {v : Value} : value v → stmt d (step (assignVariable x v)) fun _ => True
  stmt_print {d : Nat} (v : Value) : stmt d (step (printValue v)) fun _ => True
  stmt_input {d : Nat} (x : String) : stmt d (step (readVariable x)) fun _ => True

namespace Judgment
variable {b : Bounds} {J : Judgment b} {d n : Nat}

/-! ### Parts of runs -/

theorem expr_fail {P : α → Prop} (e : Error) : J.expr d (step (Run.fail e)) P := J.expr_silent (.fail e)

theorem expr_require {v : Value} (hv : J.value v) (t : Ty) (otherwise : Ty → Error) :
    J.expr d (step (Run.require v t otherwise)) fun u => J.value u ∧ u.ty = t :=
  J.expr_silent (.require (fun _ hu => J.value_widen hv hu) otherwise)

theorem expr_discard {P : α → Prop} {r : Watched α} (h : J.expr d r P) : J.expr d (discard r) fun _ => True :=
  J.expr_bind h fun _ _ => J.expr_pure trivial

theorem stmt_pure {P : α → Prop} {a : α} (h : P a) : J.stmt d (pure a) P := J.stmt_expr (J.expr_pure h)

theorem stmt_discard {P : α → Prop} {r : Watched α} (h : J.stmt d r P) : J.stmt d (discard r) fun _ => True :=
  J.stmt_bind h fun _ _ => stmt_pure trivial

theorem stmt_asCondition (construct : Construct) (v : Value) :
    J.stmt d (step (asCondition construct v)) fun _ => True :=
  J.stmt_expr (J.expr_silent (.asCondition construct v))

theorem stmt_sequence {run : Stmt → Watched Flow} {ss : List Stmt}
    (h : ∀ s ∈ ss, J.stmt d (run s) (Flow.All J.value)) : J.stmt d (Watched.sequence run ss) (Flow.All J.value) := by
  induction ss with
  | nil => exact stmt_pure trivial
  | cons s ss ih =>
    rw [List.forall_mem_cons] at h
    refine J.stmt_bind h.1 fun flow hflow => ?_
    split
    · exact ih h.2
    · exact stmt_pure hflow

theorem stmt_repeatWhile {condition : Watched Bool} {body : Watched Flow} {after : Watched Unit}
    (hc : J.stmt d condition fun _ => True) (hb : J.stmt d body (Flow.All J.value))
    (ha : J.stmt d after fun _ => True) (rounds : Nat) :
    J.stmt d (Watched.repeatWhile condition body after rounds) (Flow.All J.value) := by
  induction rounds with
  | zero => exact J.stmt_expr (J.expr_silent (.stop .outOfFuel))
  | succ rounds ih =>
    refine J.stmt_bind hc fun holds _ => ?_
    split
    · refine J.stmt_bind hb fun flow hflow => ?_
      split
      · exact stmt_pure hflow
      · exact J.stmt_bind ha fun _ _ => ih
    · exact stmt_pure trivial

theorem expr_bindArguments {run : Expr → Watched Value} {args : List Expr}
    (h : ∀ e ∈ args, J.expr d (run e) J.value) (name : String) (index : Nat) (params : List Param) :
    J.expr d (Watched.bindArguments run name index params args) (FrameAll J.value) := by
  induction params generalizing index args with
  | nil => exact J.expr_pure (by simp [FrameAll])
  | cons p params ih =>
    cases args with
    | nil => exact J.expr_pure (by simp [FrameAll])
    | cons e args =>
      rw [List.forall_mem_cons] at h
      refine J.expr_bind h.1 fun v hv => J.expr_bind (expr_require hv _ _) fun u hu => ?_
      refine J.expr_bind (ih h.2 (index + 1)) fun rest hrest => J.expr_pure ?_
      refine List.forall_mem_cons.mpr ⟨fun x hx => ?_, hrest⟩
      cases hx
      exact hu

theorem expr_resultOf (f : Function) {flow : Flow} (h : flow.All J.value) :
    J.expr d (step (resultOf f flow)) fun o => ∀ v ∈ o, J.value v := by
  refine J.expr_silent ?_
  unfold resultOf
  split
  · split
    · exact .fail _
    · exact .pure (by simp)
  · split
    · next v =>
      refine Silent.map (.require (P := J.value) (fun _ hu => J.value_widen h hu) _) fun u hu => ?_
      simpa using hu.1
    · exact .fail _

/-! ### Whole runs -/

/-- A judgment holds of what runs within a budget, if it allows the literals. -/
structure HoldsWithin (J : Judgment b) (n : Nat) : Prop where
  evaluate : ∀ d e, (∀ v ∈ e.literals, J.value v) → J.expr d (Watched.evaluate b n e) J.value
  call : ∀ d x args, (∀ v ∈ Expr.literalsAll args, J.value v) →
    J.expr d (Watched.call b n x args) fun o => ∀ v ∈ o, J.value v
  execute : ∀ d s, (∀ v ∈ s.literals, J.value v) → J.stmt d (Watched.execute b n s) (Flow.All J.value)
  executeBlock : ∀ d ss, (∀ v ∈ Stmt.literalsAll ss, J.value v) →
    J.stmt d (Watched.executeBlock b n ss) (Flow.All J.value)

section Nested

theorem HoldsWithin.evaluate_succ (h : HoldsWithin J n) (d : Nat) (e : Expr) (he : ∀ v ∈ e.literals, J.value v) :
    J.expr d (Watched.evaluate b (n + 1) e) J.value := by
  unfold Watched.evaluate
  refine J.expr_giving ?_ fun v hv u hu => List.mem_singleton.mp hu ▸ hv
  cases e with
  | literal v => exact J.expr_pure (he v List.mem_cons_self)
  | var name => exact J.expr_get name
  | unary op operand =>
    exact J.expr_bind (h.evaluate d operand he) fun v hv => J.expr_silent (.operate fun u hu => J.value_unary hv hu)
  | binary left op right =>
    obtain ⟨hleft, hright⟩ := List.forall_mem_append.mp he
    refine J.expr_bind (h.evaluate d left hleft) fun l hl => ?_
    split
    · refine J.expr_bind (J.expr_silent (.asBool op l)) fun decided _ => ?_
      split
      · exact J.expr_pure hl
      · refine J.expr_bind (h.evaluate d right hright) fun r hr => ?_
        exact J.expr_bind (expr_discard (J.expr_silent (.asBool op r))) fun _ _ => J.expr_pure hr
    · refine J.expr_bind (h.evaluate d right hright) fun r hr => ?_
      exact J.expr_silent (.operate fun u hu => J.value_binary hl hr hu)
  | call name args =>
    refine J.expr_bind (h.call d name args he) fun result hresult => ?_
    split
    · next v => exact J.expr_pure (hresult v rfl)
    · exact expr_fail _
  | stray node => exact expr_fail _
  | misnamed name node => exact expr_fail _

/-- The arguments are run in the frame of the caller, the body in its own. -/
theorem HoldsWithin.call_succ (h : HoldsWithin J n) (d : Nat) (x : String) (args : List Expr)
    (hargs : ∀ v ∈ Expr.literalsAll args, J.value v) :
    J.expr d (Watched.call b (n + 1) x args) fun o => ∀ v ∈ o, J.value v := by
  unfold Watched.call
  refine J.expr_giving ?_ fun o ho v hv => ho v (Option.mem_toList.mp hv)
  refine J.expr_bind (J.expr_callee x args.length) fun f hcallee => ?_
  obtain ⟨hd, hf⟩ := hcallee
  have hrun : ∀ e ∈ args, J.expr d (Watched.evaluate b n e) J.value := fun e he =>
    h.evaluate d e fun v hv => hargs v (Expr.mem_literalsAll he hv)
  refine J.expr_bind (expr_bindArguments hrun f.name 1 f.params) fun entries hentries => ?_
  refine J.expr_bind (J.expr_silent (.reportCall f.name _)) fun _ _ => ?_
  have hframe : FrameAll J.value (Assoc.ofList entries) := fun e he => hentries e (Assoc.mem_ofList he)
  exact J.expr_bind (J.expr_inFrame hd hframe (h.executeBlock (d + 1) f.body hf)) fun flow hflow =>
    expr_resultOf f hflow

theorem HoldsWithin.condition (h : HoldsWithin J n) (d : Nat) (construct : Construct) {cond : Expr}
    (hcond : ∀ v ∈ cond.literals, J.value v) :
    J.stmt d (Watched.evaluate b n cond >>= fun v => step (asCondition construct v)) fun _ => True :=
  J.stmt_bind (J.stmt_expr (h.evaluate d cond hcond)) fun v _ => stmt_asCondition construct v

theorem HoldsWithin.execute_succ (h : HoldsWithin J n) (d : Nat) (s : Stmt) (hs : ∀ v ∈ s.literals, J.value v) :
    J.stmt d (Watched.execute b (n + 1) s) (Flow.All J.value) := by
  have hnormal : J.stmt d (pure Flow.normal) (Flow.All J.value) := stmt_pure trivial
  unfold Watched.execute
  cases s with
  | varDecl name ty init =>
    cases init with
    | none => exact J.stmt_bind (J.stmt_declare name (by simp)) fun _ _ => hnormal
    | some e =>
      refine J.stmt_bind (J.stmt_expr (h.evaluate d e hs)) fun v hv => ?_
      refine J.stmt_bind (J.stmt_expr (expr_require hv ty _)) fun u hu => ?_
      exact J.stmt_bind (J.stmt_declare name fun x hx => Option.mem_some.mp hx ▸ hu) fun _ _ => hnormal
  | assign name value =>
    refine J.stmt_bind (J.stmt_target name) fun ty _ => ?_
    refine J.stmt_bind (J.stmt_expr (h.evaluate d value hs)) fun v hv => ?_
    refine J.stmt_bind (J.stmt_expr (J.expr_silent (.widen fun u hu => J.value_widen hv hu))) fun u hu => ?_
    exact J.stmt_bind (J.stmt_assign name hu) fun _ _ => hnormal
  | print e =>
    refine J.stmt_bind (J.stmt_expr (h.evaluate d e hs)) fun v _ => ?_
    exact J.stmt_bind (J.stmt_print v) fun _ _ => hnormal
  | input name => exact J.stmt_bind (J.stmt_input name) fun _ _ => hnormal
  | ifThen cond body =>
    obtain ⟨hcond, hbody⟩ := List.forall_mem_append.mp hs
    refine J.stmt_bind (J.stmt_expr (h.evaluate d cond hcond)) fun v _ => ?_
    refine J.stmt_bind (stmt_asCondition _ v) fun holds _ => ?_
    split
    · exact h.executeBlock d body hbody
    · exact hnormal
  | ifElse cond yes no =>
    obtain ⟨hcond, hrest⟩ := List.forall_mem_append.mp hs
    obtain ⟨hyes, hno⟩ := List.forall_mem_append.mp hrest
    refine J.stmt_bind (J.stmt_expr (h.evaluate d cond hcond)) fun v _ => ?_
    refine J.stmt_bind (stmt_asCondition _ v) fun holds _ => ?_
    split
    · exact h.executeBlock d yes hyes
    · exact h.executeBlock d no hno
  | whileLoop cond body =>
    obtain ⟨hcond, hbody⟩ := List.forall_mem_append.mp hs
    exact stmt_repeatWhile (h.condition d _ hcond) (h.executeBlock d body hbody) (stmt_pure trivial) _
  | forLoop init cond after body =>
    obtain ⟨hinit, hrest⟩ := List.forall_mem_append.mp hs
    obtain ⟨hcond, hrest⟩ := List.forall_mem_append.mp hrest
    obtain ⟨hafter, hbody⟩ := List.forall_mem_append.mp hrest
    refine J.stmt_bind (stmt_discard (h.execute d init hinit)) fun _ _ => ?_
    exact stmt_repeatWhile (h.condition d _ hcond) (h.executeBlock d body hbody)
      (stmt_discard (h.execute d after hafter)) _
  | function name params result body => exact J.stmt_expr (expr_fail _)
  | ret value =>
    cases value with
    | none => exact stmt_pure trivial
    | some e => exact J.stmt_bind (J.stmt_expr (h.evaluate d e hs)) fun v hv => stmt_pure hv
  | expr e =>
    cases e with
    | call name args => exact J.stmt_bind (J.stmt_expr (expr_discard (h.call d name args hs))) fun _ _ => hnormal
    | _ => exact J.stmt_bind (J.stmt_expr (expr_discard (h.evaluate d _ hs))) fun _ _ => hnormal
  | block body => exact h.executeBlock d body hs
  | stray node => exact J.stmt_expr (expr_fail _)
  | misnamed name init node =>
    cases init with
    | none => exact J.stmt_bind (stmt_pure (P := fun _ => True) trivial) fun _ _ => J.stmt_expr (expr_fail _)
    | some i =>
      refine J.stmt_bind (J.stmt_expr (h.evaluate d i.2 hs)) fun v hv => ?_
      exact J.stmt_bind (J.stmt_expr (expr_discard (expr_require hv i.1 _))) fun _ _ => J.stmt_expr (expr_fail _)
  | notBlock node => exact J.stmt_expr (expr_fail _)

/-- A judgment holds of what runs within every budget. -/
theorem holdsWithin (J : Judgment b) (n : Nat) : HoldsWithin J n := by
  induction n with
  | zero =>
    exact ⟨fun _ _ _ => expr_fail _, fun _ _ _ _ => expr_fail _, fun _ _ _ => J.stmt_expr (expr_fail _),
      fun _ _ _ => J.stmt_expr (expr_fail _)⟩
  | succ n ih =>
    refine ⟨ih.evaluate_succ, ih.call_succ, ih.execute_succ, fun d ss hss => ?_⟩
    unfold Watched.executeBlock
    exact stmt_sequence fun s hs => ih.execute d s fun v hv => hss v (Stmt.mem_literalsAll hs hv)

end Nested
end Judgment
end Execution
end TypedImp
