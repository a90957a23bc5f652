import TypedImp.Proofs.Execution.StoreTyping
import TypedImp.Proofs.Execution.TypeSoundness
import TypedImp.Proofs.Syntax.WellFormed

/-! Failures of programs that nobody has checked. A text that is a program, whatever its types, fails while it runs
    only with an error of the language, at the end of its input, or for a remainder of an infinite dividend. All
    that can go wrong below the language is out of reach: its values are proper, so that no payload is used in
    the place of another one and no `int` is too large for a `float`, and no stray node is come to. Before the
    first statement runs, the machine may still refuse the nesting that the bound on calls asks for. -/

namespace TypedImp

namespace Execution
open Value (Proper)

variable {α β : Type}

/-! ### Contained failures -/

/-- A failure that leaves the world `w`: one that the language reports as its own, an input without a line that
    is left, or a remainder of an infinite dividend. -/
def Error.Contained (w : World) (e : Error) : Prop :=
  (∃ m, e.diagnostic? = some ⟨.running, m, none⟩) ∨ (e = .endOfInput ∧ w.input = []) ∨
    e = .operation .infiniteDividend

/-- A loop that is given too few rounds has not failed. -/
def Stop.Contained (w : World) : Stop → Prop
  | .failed e => e.Contained w
  | .outOfFuel => True

theorem Error.contained_of_complaint {e : Error} {m : String} (h : e.complaint? = some m) (w : World) :
    e.Contained w := .inl ⟨m, by rw [Error.diagnostic?, h]; rfl⟩

/-- An operator that does not fail for a payload fails with an error of the language, or for an infinite dividend. -/
theorem Error.contained_operation {e : OperationError} (h : ∀ j, e ≠ .json j) (w : World) :
    Error.Contained w (.operation e) := by
  cases e with
  | json j => exact absurd rfl (h j)
  | infiniteDividend => exact .inr (.inr rfl)
  | _ => exact contained_of_complaint rfl w

/-- The store refuses nothing without a message. -/
theorem complaint_get {s : Store} {x : String} {e : StoreError} (h : s.get x = .error e) :
    ∃ m, e.complaint? = some m := by
  unfold Store.get at h
  cases hlookup : s.lookup x with
  | error e' =>
    rw [hlookup] at h
    cases h
    rw [lookup_eq_error hlookup]
    exact ⟨_, rfl⟩
  | ok c =>
    simp only [hlookup, bind, Except.bind] at h
    split at h
    · cases h
    · cases h
      exact ⟨_, rfl⟩

theorem complaint_set {s : Store} {x : String} {v : Value} {e : StoreError} (h : s.set x v = .error e) :
    ∃ m, e.complaint? = some m := by
  unfold Store.set at h
  cases hx : s.assignable x with
  | error e' =>
    rw [hx] at h
    cases h
    rw [assignable_eq_error hx]
    exact ⟨_, rfl⟩
  | ok c =>
    simp only [hx, bind, Except.bind] at h
    split at h
    · cases h
      exact ⟨_, rfl⟩
    · split at h <;> cases h

theorem World.nextLine?_eq_none {input : List Char} (h : World.nextLine? input = none) : input = [] := by
  unfold World.nextLine? at h
  split at h
  · next hempty => exact List.isEmpty_iff.mp hempty
  · cases h

/-! ### Plain worlds -/

/-- What the world holds is sound, and the functions are such as a text can write. -/
structure World.Plain (w : World) : Prop where
  sound : w.Sound
  bodies : ∀ e ∈ w.functions, ∀ s ∈ e.2.body, s.WellFormed

namespace World.Plain
variable {w w' : World}

theorem congr (h : w.Plain) (hstore : w'.store = w.store) (hfunctions : w'.functions = w.functions) : w'.Plain where
  sound := h.sound.congr hstore hfunctions
  bodies := hfunctions ▸ h.bodies

/-- A step that changes the store soundly. -/
theorem change (h : w.Plain) {s : Store} (hs : ({ w with store := s } : World).Sound) :
    ({ w with store := s } : World).Plain := ⟨hs, h.bodies⟩

theorem function (h : w.Plain) {x : String} {f : Function} (hx : w.functions.get? x = some f) :
    ∀ s ∈ f.body, s.WellFormed := h.bodies (x, f) (Assoc.mem_of_get? hx)

/-- The world in which the functions of a program are defined. -/
theorem define {fs : List Function} (h : w.Plain) (hsound : ∀ f ∈ fs, ∀ v ∈ Stmt.literalsAll f.body, v.Proper)
    (hbodies : ∀ f ∈ fs, ∀ s ∈ f.body, s.WellFormed) : (fs.foldl World.define w).Plain := by
  induction fs generalizing w with
  | nil => exact h
  | cons f fs ih =>
    rw [List.forall_mem_cons] at hsound hbodies
    refine ih ⟨h.sound.define hsound.1, fun e he => ?_⟩ hsound.2 hbodies.2
    rw [functions_define] at he
    rcases Assoc.mem_insert he with rfl | he
    · exact hbodies.1
    · exact h.bodies e he

end World.Plain

/-! ### Runs that contain their failures -/

/-- From the world `w` the run ends with an answer that `P` describes in a plain world, or its failure is contained. -/
def ContainedAt (r : Run α) (P : α → Prop) (w : World) : Prop :=
  match r w with
  | .ok a w' => P a ∧ w'.Plain
  | .error s w' => s.Contained w'

def Contains (r : Run α) (P : α → Prop) : Prop := ∀ w, w.Plain → ContainedAt r P w

section Runs
variable {P : α → Prop} {Q : β → Prop} {r : Run α} {w w' : World}

theorem containedAt_of_ok {a : α} (h : r w = .ok a w') (ha : P a) (hw' : w'.Plain) : ContainedAt r P w := by
  unfold ContainedAt
  rw [h]
  exact ⟨ha, hw'⟩

theorem containedAt_of_error {s : Stop} (h : r w = .error s w') (hs : s.Contained w') : ContainedAt r P w := by
  unfold ContainedAt
  rw [h]
  exact hs

namespace Contains

theorem pure {a : α} (h : P a) : Contains (pure a) P := fun _ hw => ⟨h, hw⟩

theorem fail {e : Error} (h : ∀ w, e.Contained w) : Contains (Run.fail e : Run α) P := fun w _ => h w

/-- A failure that the language has a message for. -/
theorem complain {e : Error} {m : String} (h : e.complaint? = some m) : Contains (Run.fail e : Run α) P :=
  fail (Error.contained_of_complaint h)

theorem bind {k : α → Run β} (h : Contains r P) (hk : ∀ a, P a → Contains (k a) Q) : Contains (r >>= k) Q := by
  intro w hw
  have hr := h w hw
  unfold ContainedAt at hr
  cases hrun : r w with
  | ok a w' =>
    rw [hrun] at hr
    unfold ContainedAt
    rw [State.bind_of_ok hrun]
    exact hk a hr.1 w' hr.2
  | error s w' =>
    rw [hrun] at hr
    exact containedAt_of_error (State.bind_of_error hrun) hr

theorem discard (h : Contains r P) : Contains (discard r) fun _ => True := h.bind fun _ _ => .pure trivial

theorem record (e : Event) : Contains (Run.record e) fun _ => True := fun w hw =>
  ⟨trivial, hw.congr (World.store_record w e) (World.functions_record w e)⟩

theorem ask {question : Store → Except StoreError α}
    (h : ∀ w : World, w.Plain → (∃ a, question w.store = .ok a ∧ P a) ∨
      ∃ e m, question w.store = .error e ∧ e.complaint? = some m) : Contains (Run.ask question) P := by
  intro w hw
  rcases h w hw with ⟨a, hask, ha⟩ | ⟨e, m, hask, he⟩
  · exact containedAt_of_ok (Run.ask_of_ok hask) ha hw
  · exact containedAt_of_error (Run.ask_of_error hask) (Error.contained_of_complaint (e := .store e) he w)

/-! ### Values -/

theorem operate {v : Except OperationError Value} (hok : ∀ u, v = .ok u → u.Proper)
    (hjson : ∀ j, v ≠ .error (.json j)) : Contains (Run.operate v) Proper := by
  cases v with
  | ok u => exact .pure (hok u rfl)
  | error e => exact .fail (Error.contained_operation fun j hj => hjson j (congrArg Except.error hj))

/-- An `int` of 64 bits is never too large for a `float`. -/
theorem widen {v : Value} (hv : v.Proper) (t : Ty) : Contains (Run.widen v t) Proper := by
  obtain ⟨u, hu⟩ := hv.exists_widen t
  rw [Run.widen, hu]
  exact .pure (hv.widen hu)

theorem require {v : Value} (hv : v.Proper) (t : Ty) {otherwise : Ty → Error}
    (h : ∀ s, ∃ m, (otherwise s).complaint? = some m) :
    Contains (Run.require v t otherwise) fun u => u.Proper ∧ u.ty = t := by
  refine (widen hv t).bind fun u hu => ?_
  split
  · next ht => exact .pure ⟨hu, ht⟩
  · obtain ⟨m, hm⟩ := h u.ty
    exact .complain hm

theorem asBool (op : BinaryOp) (v : Value) : Contains (asBool op v) fun _ => True := by
  unfold Execution.asBool
  split
  · exact .pure trivial
  · exact .complain rfl

theorem asCondition (construct : Construct) (v : Value) : Contains (asCondition construct v) fun _ => True := by
  unfold Execution.asCondition
  split
  · exact (record _).bind fun _ _ => .pure trivial
  · exact .complain rfl

/-! ### Variables -/

theorem getVariable (x : String) : Contains (Run.ask fun s => s.get x) Proper := by
  refine .ask fun w hw => ?_
  cases hx : w.store.get x with
  | ok v => exact .inl ⟨v, rfl, hw.sound.get hx⟩
  | error e =>
    obtain ⟨m, hm⟩ := complaint_get hx
    exact .inr ⟨e, m, rfl, hm⟩

theorem assignable (x : String) : Contains (Run.ask fun s => s.assignable x) fun _ => True := by
  refine .ask fun w _ => ?_
  cases hx : w.store.assignable x with
  | ok c => exact .inl ⟨c, rfl, trivial⟩
  | error e =>
    rw [assignable_eq_error hx]
    exact .inr ⟨_, _, rfl, rfl⟩

theorem declareVariable (x : String) {t : Ty} {o : Option Value} (ho : ∀ v ∈ o, v.Proper ∧ v.ty = t) :
    Contains (declareVariable x t o) fun _ => True := by
  intro w hw
  obtain ⟨events, h⟩ := declareVariable_eq x t o w
  exact containedAt_of_ok h trivial ((hw.change (hw.sound.declare x ho)).congr rfl rfl)

theorem assignVariable (x : String) {v : Value} (hv : v.Proper) : Contains (assignVariable x v) fun _ => True := by
  intro w hw
  have h := assignVariable_eq x v w
  cases hs : w.store.set x v with
  | ok s =>
    rw [hs] at h
    exact containedAt_of_ok h trivial (hw.change (hw.sound.set hv hs))
  | error e =>
    rw [hs] at h
    obtain ⟨m, hm⟩ := complaint_set hs
    exact containedAt_of_error h (Error.contained_of_complaint (e := .store e) hm w)

theorem printValue {v : Value} (hv : v.Proper) : Contains (printValue v) fun _ => True := by
  intro w hw
  have h := printValue_eq v w
  rw [Value.isTooLong_eq_false hv.notText?] at h
  exact containedAt_of_ok h trivial (hw.congr rfl rfl)

theorem readVariable (x : String) : Contains (readVariable x) fun _ => True := by
  intro w hw
  have h := readVariable_eq x w
  cases hx : w.store.lookup x with
  | error e =>
    rw [hx] at h
    refine containedAt_of_error h ?_
    rw [lookup_eq_error hx]
    exact Error.contained_of_complaint rfl w
  | ok c =>
    simp only [hx] at h
    cases hline : World.nextLine? w.input with
    | none =>
      simp only [hline] at h
      exact containedAt_of_error h (.inr (.inl ⟨rfl, World.nextLine?_eq_none hline⟩))
    | some l =>
      simp only [hline] at h
      cases hread : Value.read c.ty l.1 with
      | error e =>
        simp only [hread] at h
        exact containedAt_of_error h (Error.contained_of_complaint rfl _)
      | ok v =>
        simp only [hread] at h
        have hdeclare := hw.sound.declare x (t := c.ty) (o := some v) fun u hu =>
          Option.mem_some.mp hu ▸ Value.proper_read hread
        exact containedAt_of_ok h trivial ((hw.change hdeclare).congr rfl rfl)

/-! ### Calls, blocks and loops -/

theorem reportCall (name : String) {vs : List Value} (h : ∀ v ∈ vs, v.Proper) :
    Contains (reportCall name vs) fun _ => True := by
  have htexts : ∀ index, Contains (requireTexts index vs) fun _ => True := by
    induction vs with
    | nil => exact fun _ => .pure trivial
    | cons v vs ih =>
      intro index
      rw [List.forall_mem_cons] at h
      unfold requireTexts
      rw [h.1.notText?]
      exact ih h.2 (index + 1)
  exact (htexts 0).bind fun _ _ => .record _

theorem callee (b : Bounds) (x : String) (arity : Nat) :
    Contains (Watched.callee b x arity) fun f => ∀ s ∈ f.body, s.WellFormed := by
  intro w hw
  have h := callee_eq b x arity w
  cases hf : callable b w.functions w.store.depth x arity with
  | ok f =>
    rw [hf] at h
    exact containedAt_of_ok h (hw.function (callable_eq_ok hf).1) hw
  | error s =>
    rw [hf] at h
    obtain ⟨e, m, rfl, hm⟩ : ∃ e m, s = .failed e ∧ e.complaint? = some m := by
      unfold callable at hf
      split at hf
      · cases hf
        exact ⟨_, _, rfl, rfl⟩
      · split at hf
        · cases hf
          exact ⟨_, _, rfl, rfl⟩
        · split at hf
          · cases hf
            exact ⟨_, _, rfl, rfl⟩
          · cases hf
    exact containedAt_of_error h (Error.contained_of_complaint hm w)

theorem inFrame {frame : Frame} (hframe : FrameAll Proper frame) (h : Contains r P) :
    Contains (Run.inFrame frame r) P := by
  intro w hw
  have hr := h _ (hw.change (hw.sound.push hframe))
  unfold ContainedAt at hr ⊢
  rw [Run.inFrame_eq]
  cases hrun : r { w with store := w.store.push frame } with
  | ok a w' =>
    rw [hrun] at hr
    exact ⟨hr.1, hr.2.change hr.2.sound.dropFrame⟩
  | error s w' =>
    rw [hrun] at hr
    exact hr

theorem resultOf (f : Function) {flow : Flow} (h : flow.All Proper) :
    Contains (resultOf f flow) fun o => ∀ v ∈ o, v.Proper := by
  unfold Execution.resultOf
  split
  · split
    · exact .complain rfl
    · exact .pure nofun
  · split
    · next v =>
      refine (require h f.result fun s => ⟨_, rfl⟩).bind fun u hu => .pure ?_
      simpa using hu.1
    · exact .complain rfl

theorem sequence {run : Stmt → Run Flow} {ss : List Stmt} (h : ∀ s ∈ ss, Contains (run s) (Flow.All Proper)) :
    Contains (sequence run ss) (Flow.All Proper) := by
  induction ss with
  | nil => exact .pure trivial
  | cons s ss ih =>
    rw [List.forall_mem_cons] at h
    refine h.1.bind fun flow hflow => ?_
    split
    · exact ih h.2
    · exact .pure hflow

theorem repeatWhile {condition : Run Bool} {body : Run Flow} {step : Run Unit}
    (hc : Contains condition fun _ => True) (hb : Contains body (Flow.All Proper))
    (hs : Contains step fun _ => True) (rounds : Nat) :
    Contains (repeatWhile condition body step rounds) (Flow.All Proper) := by
  induction rounds with
  | zero => exact fun _ _ => trivial
  | succ rounds ih =>
    rw [repeatWhile_succ]
    refine hc.bind fun holds _ => ?_
    split
    · refine hb.bind fun flow hflow => ?_
      split
      · exact .pure hflow
      · exact hs.bind fun _ _ => ih
    · exact .pure trivial

theorem bindArguments {run : Expr → Run Value} {args : List Expr} (h : ∀ e ∈ args, Contains (run e) Proper)
    (name : String) (index : Nat) (params : List Param) :
    Contains (bindArguments run name index params args) (FrameAll Proper) := by
  induction params generalizing index args with
  | nil => exact .pure (List.forall_mem_nil _)
  | cons p params ih =>
    cases args with
    | nil => exact .pure (List.forall_mem_nil _)
    | cons e args =>
      rw [List.forall_mem_cons] at h
      refine h.1.bind fun v hv => (require hv p.ty fun s => ⟨_, rfl⟩).bind fun u hu => ?_
      refine (ih h.2 (index + 1)).bind fun rest hrest => .pure ?_
      exact List.forall_mem_cons.mpr ⟨fun x hx => Option.mem_some.mp hx ▸ hu, hrest⟩

end Contains
end Runs

/-! ### Expressions and statements -/

/-- What well-formed expressions, calls, statements and blocks do within a budget. -/
structure ContainsWithin (b : Bounds) (n : Nat) : Prop where
  evaluate : ∀ e, e.WellFormed → Contains (evaluate b n e) Proper
  call : ∀ x args, (∀ e ∈ args, e.WellFormed) → Contains (call b n x args) fun o => ∀ v ∈ o, v.Proper
  execute : ∀ s, s.WellFormed → Contains (execute b n s) (Flow.All Proper)
  executeBlock : ∀ ss, (∀ s ∈ ss, s.WellFormed) → Contains (executeBlock b n ss) (Flow.All Proper)

section Nested
variable {b : Bounds} {n : Nat}

theorem ContainsWithin.evaluate_succ (h : ContainsWithin b n) (e : Expr) (he : e.WellFormed) :
    Contains (Execution.evaluate b (n + 1) e) Proper := by
  unfold Execution.evaluate
  cases he with
  | literal hv => exact .pure hv.proper
  | var _ => exact .getVariable _
  | unary _ he =>
    refine (h.evaluate _ he).bind fun v hv => ?_
    exact .operate (fun u hu => hv.unary hu) hv.unary_ne_json
  | binary _ hl hr =>
    refine (h.evaluate _ hl).bind fun l hl => ?_
    split
    · refine (Contains.asBool _ l).bind fun decided _ => ?_
      split
      · exact .pure hl
      · refine (h.evaluate _ hr).bind fun r hr => ?_
        exact (Contains.asBool _ r).discard.bind fun _ _ => .pure hr
    · refine (h.evaluate _ hr).bind fun r hr => ?_
      exact .operate (fun u hu => hl.binary hr hu) (hl.binary_ne_json hr)
  | call _ hargs =>
    refine (h.call _ _ hargs).bind fun o ho => ?_
    split
    · next v => exact .pure (ho v rfl)
    · exact .complain rfl

/-- The arguments are run in the frame of the caller, the body in its own. -/
theorem ContainsWithin.call_succ (h : ContainsWithin b n) (x : String) (args : List Expr)
    (hargs : ∀ e ∈ args, e.WellFormed) :
    Contains (Execution.call b (n + 1) x args) fun o => ∀ v ∈ o, v.Proper := by
  rw [Execution.call_succ]
  refine (Contains.callee b x args.length).bind fun f hbody => ?_
  have hrun : ∀ e ∈ args, Contains (Execution.evaluate b n e) Proper := fun e he => h.evaluate e (hargs e he)
  refine (Contains.bindArguments hrun f.name 1 f.params).bind fun entries hentries => ?_
  have hframe : FrameAll Proper (Assoc.ofList entries) := fun e he => hentries e (Assoc.mem_ofList he)
  have hvalues : ∀ v ∈ (Assoc.ofList entries).filterMap fun e => e.2.value, v.Proper := by
    intro v hv
    obtain ⟨e, he, hvalue⟩ := List.mem_filterMap.mp hv
    exact (hframe e he v hvalue).1
  refine (Contains.reportCall f.name hvalues).bind fun _ _ => ?_
  exact (Contains.inFrame hframe (h.executeBlock f.body hbody)).bind fun flow hflow => .resultOf f hflow

theorem ContainsWithin.condition (h : ContainsWithin b n) (construct : Construct) {cond : Expr}
    (hcond : cond.WellFormed) :
    Contains (Execution.evaluate b n cond >>= asCondition construct) fun _ => True :=
  (h.evaluate cond hcond).bind fun v _ => .asCondition construct v

theorem ContainsWithin.execute_succ (h : ContainsWithin b n) (s : Stmt) (hs : s.WellFormed) :
    Contains (Execution.execute b (n + 1) s) (Flow.All Proper) := by
  have hnormal : Contains (pure Flow.normal) (Flow.All Proper) := .pure trivial
  unfold Execution.execute
  cases hs with
  | @varDecl x t init _ _ hinit =>
    cases init with
    | none =>
      have hnone : ∀ v ∈ (none : Option Value), v.Proper ∧ v.ty = t := fun v hv => absurd hv (Option.not_mem_none v)
      exact (Contains.declareVariable x hnone).bind fun _ _ => hnormal
    | some e =>
      refine (h.evaluate e (hinit e rfl)).bind fun v hv => ?_
      refine (Contains.require hv t fun s => ⟨_, rfl⟩).bind fun u hu => ?_
      exact (Contains.declareVariable x fun y hy => Option.mem_some.mp hy ▸ hu).bind fun _ _ => hnormal
  | assign _ he =>
    refine (Contains.assignable _).bind fun target _ => (h.evaluate _ he).bind fun v hv => ?_
    exact (Contains.widen hv _).bind fun u hu => (Contains.assignVariable _ hu).bind fun _ _ => hnormal
  | print he => exact (h.evaluate _ he).bind fun v hv => (Contains.printValue hv).bind fun _ _ => hnormal
  | input _ => exact (Contains.readVariable _).bind fun _ _ => hnormal
  | ifThen hcond hbody =>
    refine (h.evaluate _ hcond).bind fun v _ => (Contains.asCondition _ v).bind fun holds _ => ?_
    split
    · exact h.executeBlock _ hbody
    · exact hnormal
  | ifElse hcond hyes hno =>
    refine (h.evaluate _ hcond).bind fun v _ => (Contains.asCondition _ v).bind fun holds _ => ?_
    split
    · exact h.executeBlock _ hyes
    · exact h.executeBlock _ hno
  | whileLoop hcond hbody => exact .repeatWhile (h.condition _ hcond) (h.executeBlock _ hbody) (.pure trivial) _
  | forLoop _ hinit hcond _ hstep hbody =>
    refine (h.execute _ hinit).discard.bind fun _ _ => ?_
    exact .repeatWhile (h.condition _ hcond) (h.executeBlock _ hbody) (h.execute _ hstep).discard _
  | function _ _ _ => exact .complain rfl
  | @ret value hvalue =>
    cases value with
    | none => exact .pure trivial
    | some e => exact (h.evaluate e (hvalue e rfl)).bind fun v hv => .pure hv
  | @expr e he =>
    have hvalue := (h.evaluate e he).discard.bind fun _ _ => hnormal
    cases he with
    | call _ hargs => exact (h.call _ _ hargs).discard.bind fun _ _ => hnormal
    | _ => exact hvalue

/-- Within every budget; a budget that is used up is an error of the language. -/
theorem containsWithin (b : Bounds) (n : Nat) : ContainsWithin b n := by
  induction n with
  | zero =>
    exact ⟨fun _ _ => .complain rfl, fun _ _ _ => .complain rfl, fun _ _ => .complain rfl, fun _ _ => .complain rfl⟩
  | succ n ih =>
    exact ⟨ih.evaluate_succ, ih.call_succ, ih.execute_succ, fun ss hss => .sequence fun s hs => ih.execute s (hss s hs)⟩

end Nested

/-! ### Programs -/

theorem functions_wellFormed {p : Program} (h : p.WellFormed) : ∀ f ∈ p.functions, ∀ s ∈ f.body, s.WellFormed := by
  intro f hf
  obtain ⟨s, hs, hsf⟩ := List.mem_filterMap.mp hf
  cases h s hs with
  | function _ _ hbody =>
    cases hsf
    exact hbody
  | _ => cases hsf

/-- A program that is read from a text, checked or not, ends or goes on for longer than it is given, on every input
    and under every bound, or its failure is contained. The only other failure is that the machine does not grant
    the nesting, which it does only where the bound on calls is beyond all that it can count. -/
theorem runProgram_contained {text : String} {p : Program} (hparse : Program.parse text = .ok p) (b : Bounds)
    (input : String) (tracing : Bool) :
    ((runProgram b p).run (World.start input tracing)).answer = .ok () ∨
    ((runProgram b p).run (World.start input tracing)).answer = .error .outOfFuel ∨
    ∃ e, ((runProgram b p).run (World.start input tracing)).answer = .error (.failed e) ∧
      (e.Contained ((runProgram b p).run (World.start input tracing)).world ∨
        (e = .nestingRefused ∧ b.isGranted = false)) := by
  have hwellFormed := Syntax.wellFormed_of_parse hparse
  have hliterals := Syntax.literals_proper hparse
  have hstart : (World.start input tracing).Plain := ⟨.start input tracing, List.forall_mem_nil _⟩
  have hdefine : Contains (defineFunctions p.functions) fun _ => True := fun w hw =>
    ⟨trivial, hw.define (fun f hf v hv => hliterals v (Program.literals_functions hf hv))
      (functions_wellFormed hwellFormed)⟩
  have hactions : ∀ s ∈ p.actions, s.WellFormed := fun s hs => hwellFormed s (List.mem_filter.mp hs).1
  have hrun : Contains (executeProgram b p) fun _ => True :=
    hdefine.bind fun _ _ => ((containsWithin b b.budget).executeBlock p.actions hactions).discard
  cases hgranted : b.isGranted with
  | true =>
    rw [runProgram, if_pos hgranted]
    have h := hrun _ hstart
    unfold ContainedAt at h
    cases hw : executeProgram b p (World.start input tracing) with
    | ok u w => exact .inl (by rw [Run.run_of_ok hw])
    | error s w =>
      rw [hw] at h
      rw [Run.run_of_error hw]
      cases s with
      | outOfFuel => exact .inr (.inl rfl)
      | failed e => exact .inr (.inr ⟨e, rfl, .inl h⟩)
  | false =>
    rw [run_runProgram_refused hgranted]
    exact .inr (.inr ⟨.nestingRefused, rfl, .inr ⟨rfl, rfl⟩⟩)

/-- A text whose only call has an argument of a wrong type. -/
def misfitText : String := "func f(n: int): int \x7b return n; \x7d print(f(true));"

def misfitProgram : Program :=
  ⟨[.function "f" [⟨"n", .int⟩] .int [.ret (some (.var "n"))],
    .print (.call "f" [.literal (.bool true)])]⟩

theorem tokenize_misfitText : tokenize misfitText =
    [⟨.funcWord, "func", ⟨1, 1⟩⟩, ⟨.ident, "f", ⟨1, 6⟩⟩, ⟨.lparen, "(", ⟨1, 7⟩⟩, ⟨.ident, "n", ⟨1, 8⟩⟩,
      ⟨.colon, ":", ⟨1, 9⟩⟩, ⟨.ident, "int", ⟨1, 11⟩⟩, ⟨.rparen, ")", ⟨1, 14⟩⟩, ⟨.colon, ":", ⟨1, 15⟩⟩,
      ⟨.ident, "int", ⟨1, 17⟩⟩, ⟨.lbrace, "\x7b", ⟨1, 21⟩⟩, ⟨.returnWord, "return", ⟨1, 23⟩⟩,
      ⟨.ident, "n", ⟨1, 30⟩⟩, ⟨.semicolon, ";", ⟨1, 31⟩⟩, ⟨.rbrace, "\x7d", ⟨1, 33⟩⟩, ⟨.printWord, "print", ⟨1, 35⟩⟩,
      ⟨.lparen, "(", ⟨1, 40⟩⟩, ⟨.ident, "f", ⟨1, 41⟩⟩, ⟨.lparen, "(", ⟨1, 42⟩⟩, ⟨.boolean, "true", ⟨1, 43⟩⟩,
      ⟨.rparen, ")", ⟨1, 47⟩⟩, ⟨.rparen, ")", ⟨1, 48⟩⟩, ⟨.semicolon, ";", ⟨1, 49⟩⟩, ⟨.eof, "", ⟨1, 50⟩⟩] := by
  rw [tokenize_eq_tokensWithin]
  decide +kernel

theorem parse_misfitText : Program.parse misfitText = .ok misfitProgram := by
  rw [Program.parse, tokenize_misfitText]
  rfl

/-- The checker refuses the program; when it runs nevertheless, the call is refused with an error of the language. -/
theorem misfit_contained :
    Program.parse misfitText = .ok misfitProgram ∧ (∃ e, (Typing.check misfitProgram).answer = .error e) ∧
    ((runProgram ⟨1000, 1000⟩ misfitProgram).run (World.start "" false)).answer =
      .error (.failed (.badArgument 1 "f" .int .bool)) ∧
    Error.Contained ((runProgram ⟨1000, 1000⟩ misfitProgram).run (World.start "" false)).world
      (.badArgument 1 "f" .int .bool) := by
  refine ⟨parse_misfitText, ⟨_, rfl⟩, rfl, ?_⟩
  rcases runProgram_contained parse_misfitText ⟨1000, 1000⟩ "" false with h | h | ⟨e, h, hcontained⟩
  · cases h
  · cases h
  · cases h
    exact hcontained.resolve_right nofun

/-- A bound of a thousand million calls is beyond what the machine can count, and the failure that it gives is none
    that is contained, although the program makes no call at all. -/
theorem nesting_not_contained :
    Program.parse "print(1);" = .ok ⟨[.print (.literal (.int 1))]⟩ ∧
    ((runProgram ⟨1000000000, 1000⟩ ⟨[.print (.literal (.int 1))]⟩).run (World.start "" false)).answer =
      .error (.failed .nestingRefused) ∧
    ¬Error.Contained ((runProgram ⟨1000000000, 1000⟩ ⟨[.print (.literal (.int 1))]⟩).run (World.start "" false)).world
      .nestingRefused := by
  refine ⟨parse_printText, rfl, ?_⟩
  rintro (⟨m, hm⟩ | ⟨h, -⟩ | h)
  · cases hm
  · cases h
  · cases h

end Execution
end TypedImp
