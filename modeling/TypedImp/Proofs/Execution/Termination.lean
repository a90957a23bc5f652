import TypedImp.Proofs.Execution.Joining

/-! Programs without loops come to an end. A call jumps to a body that may be larger than the call, and the functions
    may call each other and themselves; but every body runs with one call more that is active, and an argument runs
    with as many as the call itself. So the calls that may still become active, times the height of the tallest body
    that is known, bound the nesting together with the height of what is run: a run that is given a budget of that
    much ends by itself, with a result or with an error of the program, and a higher budget makes no difference.

    The functions that are known before and stay known must have no loops either: a program without loops that calls
    one that loops can go on for ever. -/

namespace TypedImp

/-! ### Loops and heights -/

namespace Expr

mutual
/-- How many budgets one below the other an expression uses, apart from the bodies of the functions it calls. -/
def height : Expr → Nat
  | unary _ operand => height operand + 1
  | binary left _ right => max (height left) (height right) + 1
  | call _ args => heightAll args + 2
  | _ => 1

def heightAll : List Expr → Nat
  | [] => 0
  | e :: es => max (height e) (heightAll es)
end

theorem height_pos (e : Expr) : 0 < e.height := by cases e <;> simp [height]

theorem heightAll_le {es : List Expr} {n : Nat} : heightAll es ≤ n ↔ ∀ e ∈ es, e.height ≤ n := by
  induction es with
  | nil => simp [heightAll]
  | cons e es ih => rw [heightAll, Nat.max_le, ih, List.forall_mem_cons]

theorem height_le_heightAll {e : Expr} {es : List Expr} (h : e ∈ es) : e.height ≤ heightAll es :=
  heightAll_le.mp (Nat.le_refl _) e h

end Expr

namespace Stmt

mutual
/-- Neither the statement nor a function that it declares has a loop. -/
def isLoopless : Stmt → Bool
  | ifThen _ body => allLoopless body
  | ifElse _ yes no => allLoopless yes && allLoopless no
  | whileLoop .. | forLoop .. => false
  | function _ _ _ body => allLoopless body
  | block body => allLoopless body
  | _ => true

def allLoopless : List Stmt → Bool
  | [] => true
  | s :: ss => isLoopless s && allLoopless ss
end

mutual
/-- How many budgets one below the other a statement without loops uses, apart from the bodies of the functions it
    calls. -/
def height : Stmt → Nat
  | varDecl _ _ init => init.elim 0 Expr.height + 1
  | assign _ value => value.height + 1
  | print e => e.height + 1
  | ifThen cond body => max cond.height (heightAll body + 1) + 1
  | ifElse cond yes no => max cond.height (max (heightAll yes + 1) (heightAll no + 1)) + 1
  | ret value => value.elim 0 Expr.height + 1
  | expr e => e.height + 1
  | block body => heightAll body + 2
  | misnamed _ init _ => init.elim 0 (fun d => d.2.height) + 1
  | _ => 1

def heightAll : List Stmt → Nat
  | [] => 0
  | s :: ss => max (height s) (heightAll ss)
end

theorem allLoopless_iff {ss : List Stmt} : allLoopless ss = true ↔ ∀ s ∈ ss, s.isLoopless = true := by
  induction ss with
  | nil => simp [allLoopless]
  | cons s ss ih => simp [allLoopless, ih]

theorem height_pos (s : Stmt) : 0 < s.height := by cases s <;> simp [height]

theorem heightAll_le {ss : List Stmt} {n : Nat} : heightAll ss ≤ n ↔ ∀ s ∈ ss, s.height ≤ n := by
  induction ss with
  | nil => simp [heightAll]
  | cons s ss ih => rw [heightAll, Nat.max_le, ih, List.forall_mem_cons]

theorem height_le_heightAll {s : Stmt} {ss : List Stmt} (h : s ∈ ss) : s.height ≤ heightAll ss :=
  heightAll_le.mp (Nat.le_refl _) s h

end Stmt

/-- A program has no loop, neither at its top level nor in the body of a function. -/
def Program.Loopless (p : Program) : Prop := Stmt.allLoopless p.body = true

instance (p : Program) : Decidable p.Loopless := inferInstanceAs (Decidable (_ = true))

namespace Program
variable {p : Program}

theorem Loopless.action (h : p.Loopless) {s : Stmt} (hs : s ∈ p.actions) : s.isLoopless = true :=
  Stmt.allLoopless_iff.mp h s (List.mem_filter.mp hs).1

theorem Loopless.body (h : p.Loopless) {f : Function} (hf : f ∈ p.functions) : Stmt.allLoopless f.body = true := by
  obtain ⟨s, hs, hsf⟩ := List.mem_filterMap.mp hf
  have hloopless := Stmt.allLoopless_iff.mp h s hs
  cases s with
  | function name params result body =>
    cases hsf
    exact hloopless
  | _ => cases hsf

end Program

namespace Execution
open Stmt (allLoopless heightAll)

variable {α β : Type}

/-! ### Worlds -/

/-- A function that is known has been known before, under a name that no definition has, or is one of the defined. -/
theorem get?_of_foldl_define {fs : List Function} {w : World} {x : String} {f : Function}
    (h : (fs.foldl World.define w).functions.get? x = some f) :
    f ∈ fs ∨ ((∀ g ∈ fs, g.name ≠ x) ∧ w.functions.get? x = some f) := by
  induction fs generalizing w with
  | nil => exact .inr ⟨List.forall_mem_nil _, h⟩
  | cons g fs ih =>
    rcases ih h with hf | ⟨hnames, hx⟩
    · exact .inl (List.mem_cons_of_mem _ hf)
    · rw [functions_define] at hx
      by_cases hg : g.name = x
      · rw [hg, Assoc.get?_insert_self] at hx
        exact .inl (Option.some.inj hx ▸ List.mem_cons_self)
      · rw [Assoc.get?_insert_of_ne _ _ (Ne.symm hg)] at hx
        exact .inr ⟨List.forall_mem_cons.mpr ⟨hg, hnames⟩, hx⟩

/-- No function that is known has a loop. -/
def World.Loopless (w : World) : Prop := ∀ x f, w.functions.get? x = some f → allLoopless f.body = true

/-- The height of the tallest body that is known. -/
def World.tallest (w : World) : Nat := heightAll (w.functions.flatMap fun e => e.2.body)

theorem World.heightAll_le_tallest {w : World} {x : String} {f : Function} (h : w.functions.get? x = some f) :
    heightAll f.body ≤ w.tallest :=
  Stmt.heightAll_le.mpr fun _ hs => Stmt.height_le_heightAll (List.mem_flatMap_of_mem (Assoc.mem_of_get? h) hs)

/-- No function that is known has a loop or a body as tall as `m`, and at most `k` calls more may become active. -/
structure World.Shallow (calls : Int) (m k : Nat) (w : World) : Prop where
  loopless : w.Loopless
  low : ∀ x f, w.functions.get? x = some f → heightAll f.body < m
  calls : calls ≤ w.store.depth + k

namespace World.Shallow
variable {calls : Int} {m k : Nat} {w w' : World}

theorem congr (h : w.Shallow calls m k) (hfunctions : w'.functions = w.functions)
    (hdepth : w'.store.depth = w.store.depth) : w'.Shallow calls m k where
  loopless := by
    unfold World.Loopless
    rw [hfunctions]
    exact h.loopless
  low := hfunctions ▸ h.low
  calls := hdepth ▸ h.calls

theorem push (h : w.Shallow calls m (k + 1)) (frame : Frame) :
    ({ w with store := w.store.push frame } : World).Shallow calls m k where
  loopless := h.loopless
  low := h.low
  calls := by
    have hcalls := h.calls
    simp only [Store.depth, Store.push, List.length_cons] at hcalls ⊢
    omega

theorem dropFrame (h : w.Shallow calls m k) :
    ({ w with store := w.store.dropFrame } : World).Shallow calls m (k + 1) where
  loopless := h.loopless
  low := h.low
  calls := by
    have hcalls := h.calls
    simp only [Store.depth, Store.dropFrame, List.length_tail] at hcalls ⊢
    omega

end World.Shallow

theorem depth_declare (s : Store) (x : String) (t : Ty) (v : Option Value) : (s.declare x t v).depth = s.depth := by
  obtain ⟨globals, frames⟩ := s
  cases frames <;> rfl

theorem depth_set {s t : Store} {x : String} {v : Value} (h : s.set x v = .ok t) : t.depth = s.depth := by
  obtain ⟨c, -, ⟨-, rfl⟩ | ⟨-, rfl⟩⟩ := Store.set_eq_ok h
  · exact depth_declare s x c.ty (some v)
  · rfl

/-! ### Runs that come to an end -/

/-- The stops that tell how a run ends by itself. The others come from a lack of budget or of rounds. -/
def Stop.Settled : Stop → Prop
  | .failed e => e ≠ .stackExhausted
  | .outOfFuel => False

def Settled (answer : Except Stop α) : Prop := ∀ s, answer = .error s → s.Settled

/-- From a world that `I` describes the run ends by itself in such a world. -/
def Settles (I : World → Prop) (r : Run α) : Prop :=
  ∀ w, I w → ∃ answer u, r w = endIn answer u ∧ Settled answer ∧ I u

theorem settled_ok (a : α) : Settled (.ok a : Except Stop α) := fun _ h => nomatch h

theorem settled_error {s : Stop} (h : s.Settled) : Settled (.error s : Except Stop α) := fun _ hs => by
  cases hs
  exact h

section Runs
variable {I : World → Prop} {r : Run α}

namespace Settles

theorem pure (a : α) : Settles I (pure a) := fun w hw => ⟨.ok a, w, rfl, settled_ok a, hw⟩

theorem fail {e : Error} (h : e ≠ .stackExhausted) : Settles I (Run.fail e : Run α) := fun w hw =>
  ⟨.error (.failed e), w, rfl, settled_error h, hw⟩

theorem bind {k : α → Run β} (h : Settles I r) (hk : ∀ a, Settles I (k a)) : Settles I (r >>= k) := by
  intro w hw
  obtain ⟨answer, u, hu, hsettled, hI⟩ := h w hw
  cases answer with
  | ok a =>
    obtain ⟨answer, v, hv, h'⟩ := hk a u hI
    exact ⟨answer, v, (State.bind_of_ok hu).trans hv, h'⟩
  | error s => exact ⟨.error s, u, State.bind_of_error hu, settled_error (hsettled s rfl), hI⟩

theorem discard (h : Settles I r) : Settles I (discard r) := h.bind fun _ => .pure _

theorem ask (question : Store → Except StoreError α) : Settles I (Run.ask question) := by
  intro w hw
  refine ⟨_, w, Run.ask_eq question w, ?_, hw⟩
  cases question w.store with
  | ok a => exact settled_ok a
  | error e => exact settled_error nofun

/-! ### Values -/

theorem operate (v : Except OperationError Value) : Settles I (Run.operate v) := by
  cases v with
  | ok u => exact .pure u
  | error e => exact .fail (by simp)

theorem widen (v : Value) (t : Ty) : Settles I (Run.widen v t) := by
  unfold Run.widen
  split
  · exact .pure _
  · exact .fail (by simp)

theorem require (v : Value) (t : Ty) (otherwise : Ty → Error) (h : ∀ s, otherwise s ≠ .stackExhausted) :
    Settles I (Run.require v t otherwise) := by
  refine (widen v t).bind fun u => ?_
  split
  · exact .pure _
  · exact .fail (h _)

theorem asBool (op : BinaryOp) (v : Value) : Settles I (asBool op v) := by
  unfold Execution.asBool
  split
  · exact .pure _
  · exact .fail (by simp)

theorem resultOf (f : Function) (flow : Flow) : Settles I (resultOf f flow) := by
  unfold Execution.resultOf
  split
  · split
    · exact .fail (by simp)
    · exact .pure _
  · split
    · exact (require _ f.result (.badReturn f.name f.result) fun _ => by simp).bind fun u => .pure _
    · exact .fail (by simp)

theorem sequence {run : Stmt → Run Flow} {ss : List Stmt} (h : ∀ s ∈ ss, Settles I (run s)) :
    Settles I (sequence run ss) := by
  induction ss with
  | nil => exact .pure _
  | cons s ss ih =>
    rw [List.forall_mem_cons] at h
    refine h.1.bind fun flow => ?_
    split
    · exact ih h.2
    · exact .pure _

theorem bindArguments {run : Expr → Run Value} {args : List Expr} (h : ∀ e ∈ args, Settles I (run e))
    (name : String) (index : Nat) (params : List Param) : Settles I (bindArguments run name index params args) := by
  induction params generalizing index args with
  | nil => exact .pure _
  | cons p params ih =>
    cases args with
    | nil => exact .pure _
    | cons e args =>
      rw [List.forall_mem_cons] at h
      refine h.1.bind fun v => (require v p.ty (.badArgument index name p.ty) fun _ => by simp).bind fun u => ?_
      exact (ih h.2 (index + 1)).bind fun rest => .pure _

/-! ### Steps from shallow worlds -/

section Steps
variable {calls : Int} {m k : Nat}

theorem record (e : Event) : Settles (World.Shallow calls m k) (Run.record e) := by
  intro w hw
  obtain ⟨events, h⟩ := w.record_eq e
  exact ⟨.ok (), _, congrArg (EStateM.Result.ok ()) h, settled_ok _, hw.congr rfl rfl⟩

theorem asCondition (construct : Construct) (v : Value) :
    Settles (World.Shallow calls m k) (asCondition construct v) := by
  unfold Execution.asCondition
  split
  · exact (record _).bind fun _ => .pure _
  · exact .fail (by simp)

theorem reportCall (name : String) (args : List Value) : Settles (World.Shallow calls m k) (reportCall name args) := by
  have htexts : ∀ index, Settles (World.Shallow calls m k) (requireTexts index args) := by
    induction args with
    | nil => exact fun _ => .pure _
    | cons v args ih =>
      intro index
      unfold requireTexts
      split
      · exact .fail (by simp)
      · exact ih (index + 1)
  exact (htexts 0).bind fun _ => .record _

theorem declareVariable (x : String) (t : Ty) (v : Option Value) :
    Settles (World.Shallow calls m k) (declareVariable x t v) := by
  intro w hw
  obtain ⟨events, h⟩ := declareVariable_eq x t v w
  exact ⟨.ok (), _, h, settled_ok _, hw.congr rfl (depth_declare ..)⟩

theorem assignVariable (x : String) (v : Value) : Settles (World.Shallow calls m k) (assignVariable x v) := by
  intro w hw
  have h := assignVariable_eq x v w
  cases hs : w.store.set x v with
  | ok s =>
    rw [hs] at h
    exact ⟨.ok (), _, h, settled_ok _, hw.congr rfl (depth_set hs)⟩
  | error e =>
    rw [hs] at h
    exact ⟨.error _, w, h, settled_error nofun, hw⟩

theorem printValue (v : Value) : Settles (World.Shallow calls m k) (printValue v) := by
  intro w hw
  have h := printValue_eq v w
  split at h
  · exact ⟨.error _, w, h, settled_error nofun, hw⟩
  · exact ⟨.ok (), _, h, settled_ok _, hw.congr rfl rfl⟩

theorem readVariable (x : String) : Settles (World.Shallow calls m k) (readVariable x) := by
  intro w hw
  have h := readVariable_eq x w
  split at h
  · exact ⟨.error _, _, h, settled_error nofun, hw⟩
  · dsimp only at h
    split at h
    · exact ⟨.error _, _, h, settled_error nofun, hw.congr rfl rfl⟩
    · split at h
      · exact ⟨.error _, _, h, settled_error nofun, hw.congr rfl rfl⟩
      · exact ⟨.ok (), _, h, settled_ok _, hw.congr rfl (depth_declare ..)⟩

end Steps
end Settles
end Runs

/-! ### Expressions and statements -/

/-- What settles within a budget that exceeds the height by a tallest body for each call that may become active. -/
structure SettlesWithin (b : Bounds) (m n : Nat) : Prop where
  evaluate : ∀ k e, e.height + k * m ≤ n → Settles (World.Shallow b.calls m k) (evaluate b n e)
  call : ∀ k x args, Expr.heightAll args + 1 + k * m ≤ n → Settles (World.Shallow b.calls m k) (call b n x args)
  execute : ∀ k s, s.isLoopless = true → s.height + k * m ≤ n →
    Settles (World.Shallow b.calls m k) (execute b n s)
  executeBlock : ∀ k ss, allLoopless ss = true → heightAll ss + 1 + k * m ≤ n →
    Settles (World.Shallow b.calls m k) (executeBlock b n ss)

section Nested
variable {b : Bounds} {m n : Nat}

theorem SettlesWithin.evaluate_succ (h : SettlesWithin b m n) (k : Nat) (e : Expr) (he : e.height + k * m ≤ n + 1) :
    Settles (World.Shallow b.calls m k) (Execution.evaluate b (n + 1) e) := by
  unfold Execution.evaluate
  cases e with
  | literal v => exact .pure v
  | var name => exact .ask _
  | unary op operand =>
    rw [Expr.height] at he
    exact (h.evaluate k operand (by omega)).bind fun v => .operate _
  | binary left op right =>
    rw [Expr.height] at he
    have hleft := h.evaluate k left (by omega)
    have hright := h.evaluate k right (by omega)
    refine hleft.bind fun l => ?_
    split
    · refine (Settles.asBool op l).bind fun decided => ?_
      split
      · exact .pure l
      · exact hright.bind fun r => (Settles.asBool op r).discard.bind fun _ => .pure r
    · exact hright.bind fun r => .operate _
  | call name args =>
    rw [Expr.height] at he
    refine (h.call k name args (by omega)).bind fun o => ?_
    split
    · exact .pure _
    · exact .fail (by simp)
  | stray node => exact .fail (by simp)
  | misnamed name node => exact .fail (by simp)

/-- The function that a call may call is known, and one call more may become active. -/
theorem World.Shallow.callable {k : Nat} {w : World} (hw : w.Shallow b.calls m k) {x : String} {arity : Nat}
    {f : Function} (h : callable b w.functions w.store.depth x arity = .ok f) :
    allLoopless f.body = true ∧ heightAll f.body < m ∧ ∃ j, k = j + 1 := by
  obtain ⟨hf, -, hdepth⟩ := callable_eq_ok h
  have hcalls := hw.calls
  exact ⟨hw.loopless x f hf, hw.low x f hf, Nat.exists_eq_succ_of_ne_zero (by omega)⟩

/-- A call that may not be made fails with an error of the program. -/
theorem settled_of_callable {functions : Assoc Function} {depth arity : Nat} {x : String} {s : Stop}
    (h : callable b functions depth x arity = .error s) : s.Settled := by
  unfold Execution.callable at h
  split at h
  · cases h
    exact nofun
  · split at h
    · cases h
      exact nofun
    · split at h
      · cases h
        exact nofun
      · cases h

/-- A frame of its own takes one of the calls that may become active, and gives it back. -/
theorem Settles.inFrame {r : Run α} {calls : Int} {k : Nat} (frame : Frame)
    (h : Settles (World.Shallow calls m k) r) : Settles (World.Shallow calls m (k + 1)) (Run.inFrame frame r) := by
  intro w hw
  obtain ⟨answer, u, hu, hsettled, hshallow⟩ := h _ (hw.push frame)
  exact ⟨answer, _, Run.inFrame_of_endIn hu, hsettled, hshallow.dropFrame⟩

/-- The arguments have the calls that the call has itself; the body has one less, and a tallest body of budget more
    than it needs for that. -/
theorem SettlesWithin.call_succ (h : SettlesWithin b m n) (k : Nat) (x : String) (args : List Expr)
    (hargs : Expr.heightAll args + 1 + k * m ≤ n + 1) :
    Settles (World.Shallow b.calls m k) (Execution.call b (n + 1) x args) := by
  rw [Execution.call_succ]
  intro w hw
  have hcallee := callee_eq b x args.length w
  cases hf : callable b w.functions w.store.depth x args.length with
  | error s =>
    rw [hf] at hcallee
    exact ⟨.error s, w, State.bind_of_error hcallee, settled_error (settled_of_callable hf), hw⟩
  | ok f =>
    rw [hf] at hcallee
    rw [State.bind_of_ok hcallee]
    obtain ⟨hloopless, hlow, j, rfl⟩ := hw.callable hf
    have hbudget : (j + 1) * m = j * m + m := Nat.succ_mul j m
    have hrun : ∀ e ∈ args, Settles (World.Shallow b.calls m (j + 1)) (Execution.evaluate b n e) := fun e he => by
      have := Expr.height_le_heightAll he
      exact h.evaluate (j + 1) e (by omega)
    have hbody := h.executeBlock j f.body hloopless (by omega)
    refine Settles.bind (.bindArguments hrun f.name 1 f.params) (fun entries => ?_) w hw
    refine (Settles.reportCall f.name _).bind fun _ => ?_
    exact (Settles.inFrame _ hbody).bind fun flow => .resultOf f flow

theorem SettlesWithin.execute_succ (h : SettlesWithin b m n) (k : Nat) (s : Stmt) (hs : s.isLoopless = true)
    (hheight : s.height + k * m ≤ n + 1) : Settles (World.Shallow b.calls m k) (Execution.execute b (n + 1) s) := by
  unfold Execution.execute
  cases s with
  | varDecl name ty init =>
    cases init with
    | none => exact (Settles.declareVariable name ty none).bind fun _ => .pure _
    | some e =>
      rw [Stmt.height, Option.elim_some] at hheight
      refine (h.evaluate k e (by omega)).bind fun v => ?_
      refine (Settles.require v ty (.badInitializer name ty) fun _ => by simp).bind fun u => ?_
      exact (Settles.declareVariable name ty (some u)).bind fun _ => .pure _
  | assign name value =>
    rw [Stmt.height] at hheight
    refine (Settles.ask _).bind fun target => (h.evaluate k value (by omega)).bind fun v => ?_
    exact (Settles.widen v target.ty).bind fun u => (Settles.assignVariable name u).bind fun _ => .pure _
  | print e =>
    rw [Stmt.height] at hheight
    exact (h.evaluate k e (by omega)).bind fun v => (Settles.printValue v).bind fun _ => .pure _
  | input name => exact (Settles.readVariable name).bind fun _ => .pure _
  | ifThen cond body =>
    rw [Stmt.height] at hheight
    refine (h.evaluate k cond (by omega)).bind fun v => (Settles.asCondition _ v).bind fun holds => ?_
    split
    · exact h.executeBlock k body hs (by omega)
    · exact .pure _
  | ifElse cond yes no =>
    rw [Stmt.height] at hheight
    obtain ⟨hyes, hno⟩ := Bool.and_eq_true_iff.mp hs
    refine (h.evaluate k cond (by omega)).bind fun v => (Settles.asCondition _ v).bind fun holds => ?_
    split
    · exact h.executeBlock k yes hyes (by omega)
    · exact h.executeBlock k no hno (by omega)
  | whileLoop cond body => cases hs
  | forLoop init cond step body => cases hs
  | function name params result body => exact .fail (by simp)
  | ret value =>
    cases value with
    | none => exact .pure _
    | some e =>
      rw [Stmt.height, Option.elim_some] at hheight
      exact (h.evaluate k e (by omega)).bind fun v => .pure _
  | expr e =>
    rw [Stmt.height] at hheight
    cases e with
    | call name args =>
      rw [Expr.height] at hheight
      exact (h.call k name args (by omega)).discard.bind fun _ => .pure _
    | _ => exact (h.evaluate k _ (by omega)).discard.bind fun _ => .pure _
  | block body =>
    rw [Stmt.height] at hheight
    exact h.executeBlock k body hs (by omega)
  | stray node => exact .fail (by simp)
  | misnamed name init node =>
    cases init with
    | none => exact (Settles.pure ()).bind fun _ => .fail (by simp)
    | some d =>
      rw [Stmt.height, Option.elim_some] at hheight
      refine (h.evaluate k d.2 (by omega)).bind fun v => ?_
      refine (Settles.require v d.1 (.badInitializer name.asText d.1) fun _ => by simp).discard.bind fun _ => ?_
      exact .fail (by simp)
  | notBlock node => exact .fail (by simp)

/-- Whatever is run has a height of at least one, so that nothing is run without a budget. -/
theorem settlesWithin (b : Bounds) (m n : Nat) : SettlesWithin b m n := by
  induction n with
  | zero =>
    refine ⟨fun k e he => ?_, fun k x args hargs => ?_, fun k s hs hheight => ?_, fun k ss hss hheight => ?_⟩
    · have := e.height_pos
      omega
    · omega
    · have := s.height_pos
      omega
    · omega
  | succ n ih =>
    refine ⟨ih.evaluate_succ, ih.call_succ, ih.execute_succ, fun k ss hss hheight => ?_⟩
    refine Settles.sequence fun s hs => ih.execute k s (Stmt.allLoopless_iff.mp hss s hs) ?_
    have := Stmt.height_le_heightAll hs
    omega

end Nested

/-! ### Programs -/

/-- What the statements need themselves, and as much as the tallest body needs for each call that may become
    active. -/
def World.sufficient (w : World) (calls : Int) (ss : List Stmt) : Nat :=
  heightAll ss + 1 + (calls - w.store.depth).toNat * (w.tallest + 1)

theorem World.Loopless.shallow {w : World} (h : w.Loopless) (calls : Int) :
    w.Shallow calls (w.tallest + 1) (calls - w.store.depth).toNat :=
  ⟨h, fun _ _ hf => Nat.lt_succ_of_le (World.heightAll_le_tallest hf), by omega⟩

/-- The functions of a program without loops, beside those that it does not define anew. -/
theorem World.Loopless.define {p : Program} (hp : p.Loopless) {w : World}
    (hw : ∀ x f, w.functions.get? x = some f → (∀ g ∈ p.functions, g.name ≠ x) → allLoopless f.body = true) :
    (p.functions.foldl World.define w).Loopless := by
  intro x f hf
  rcases get?_of_foldl_define hf with hf | ⟨hnames, hf⟩
  · exact hp.body hf
  · exact hw x f hf hnames

theorem World.Loopless.run {b : Bounds} {n : Nat} {ss : List Stmt} {w : World} (h : w.Loopless) :
    ((discard (executeBlock b n ss) : Run Unit).run w).world.Loopless := by
  have hwithin := followsWithin (S := fun _ => False) (Bounds.Reach.refl b) (.inl (Eq.refl n))
  obtain ⟨answer, u, u', hu, -, -, hfunctions, -⟩ :=
    (hwithin.executeBlock ss).discard.endLike ((World.Like.refl w).matches rfl)
  rw [Run.run_of_endIn hu, World.Loopless, hfunctions]
  exact h

/-- Statements without loops have one end, which all runs come to whose budget is sufficient, with however many
    rounds for the loops that they do not have. -/
theorem executeBlock_terminates {ss : List Stmt} (hss : allLoopless ss = true) {w : World} (hw : w.Loopless)
    (calls : Int) :
    ∃ o : Outcome Unit, Settled o.answer ∧ ∀ rounds n, w.sufficient calls ss ≤ n →
      o.Alike ((discard (executeBlock ⟨calls, rounds⟩ n ss) : Run Unit).run w) := by
  have hsettles := (settlesWithin ⟨calls, 0⟩ (w.tallest + 1) (w.sufficient calls ss)).executeBlock _ ss hss
    (Nat.le_refl _)
  obtain ⟨answer, u, hu, hsettled, -⟩ := hsettles.discard w (hw.shallow calls)
  refine ⟨⟨answer, u⟩, hsettled, fun rounds n hn => ?_⟩
  rw [← Run.run_of_endIn hu]
  have hbounds : Bounds.Reach (fun s => ¬s.Settled) ⟨calls, 0⟩ ⟨calls, rounds⟩ :=
    ⟨.inl rfl, .inr ⟨Nat.zero_le _, id⟩⟩
  have hwithin := followsWithin hbounds (.inr ⟨hn, fun h => h rfl⟩)
  rcases (hwithin.executeBlock ss).discard w w ((World.Like.refl w).matches rfl) with h | ⟨s, v, hv, hs⟩
  · exact h.alike rfl
  · -- the first run has already been seen to settle
    rw [hu] at hv
    cases answer with
    | ok a => cases hv
    | error e =>
      cases hv
      exact absurd (hsettled _ rfl) hs

theorem World.Loopless.runProgram {p : Program} {w : World} (h : (p.functions.foldl World.define w).Loopless)
    (b : Bounds) : ((runProgram b p).run w).world.Loopless := by
  cases hgranted : b.isGranted with
  | false =>
    rw [run_runProgram_refused hgranted]
    exact h
  | true =>
    rw [run_runProgram hgranted]
    exact h.run

/-- A program comes to the end that its statements come to with every budget from some number on, or the machine
    refuses the nesting or has not enough of it. -/
theorem runProgram_ends {b : Bounds} {p : Program} {w : World} {o : Outcome Unit} {m : Nat}
    (ho : ∀ n, m ≤ n →
      o.Alike ((discard (executeBlock b n p.actions) : Run Unit).run (p.functions.foldl World.define w))) :
    o.Alike ((runProgram b p).run w) ∨
      ((runProgram b p).run w).answer = .error (.failed .nestingRefused) ∨
      ((runProgram b p).run w).answer = .error (.failed .stackExhausted) := by
  cases hgranted : b.isGranted with
  | false =>
    rw [run_runProgram_refused hgranted]
    exact .inr (.inl rfl)
  | true =>
    rw [run_runProgram hgranted]
    -- a machine with both budgets would come to the end that all runs from `m` on come to
    have hwithin := followsWithin (S := (· = .failed .stackExhausted)) (Bounds.Reach.refl b) (n := b.budget)
      (.inr ⟨Nat.le_max_left _ m, rfl⟩)
    rcases (hwithin.executeBlock p.actions).discard _ _ ((World.Like.refl _).matches rfl) with h | ⟨s, u, hu, rfl⟩
    · exact .inl ((ho _ (Nat.le_max_right ..)).trans (h.alike rfl).symm)
    · exact .inr (.inr (by rw [Run.run_of_error hu]))

/-- A program without loops terminates, however its functions call themselves and each other, if the functions that
    are known beside them have no loops either. Whatever the bound on calls, its statements have one end, a result or
    an error of the program, which all runs come to whose budget is sufficient, with any number of rounds for loops.
    Run by the machine, the program comes to this end, or the machine refuses the nesting or has not enough of it;
    and no function with a loop is known afterwards. -/
theorem runProgram_terminates {p : Program} (hp : p.Loopless) {w : World}
    (hw : ∀ x f, w.functions.get? x = some f → (∀ g ∈ p.functions, g.name ≠ x) → allLoopless f.body = true)
    (calls : Int) :
    ∃ o : Outcome Unit, Settled o.answer ∧
      (∀ rounds n, (p.functions.foldl World.define w).sufficient calls p.actions ≤ n →
        o.Alike ((discard (executeBlock ⟨calls, rounds⟩ n p.actions) : Run Unit).run
          (p.functions.foldl World.define w))) ∧
      ∀ rounds,
        (o.Alike ((runProgram ⟨calls, rounds⟩ p).run w) ∨
          ((runProgram ⟨calls, rounds⟩ p).run w).answer = .error (.failed .nestingRefused) ∨
          ((runProgram ⟨calls, rounds⟩ p).run w).answer = .error (.failed .stackExhausted)) ∧
        ((runProgram ⟨calls, rounds⟩ p).run w).answer ≠ .error .outOfFuel ∧
        ((runProgram ⟨calls, rounds⟩ p).run w).world.Loopless := by
  have hloopless := World.Loopless.define hp hw
  have hactions : allLoopless p.actions = true := Stmt.allLoopless_iff.mpr fun s hs => hp.action hs
  obtain ⟨o, hsettled, ho⟩ := executeBlock_terminates hactions hloopless calls
  refine ⟨o, hsettled, ho, fun rounds => ?_⟩
  have hends := runProgram_ends (ho rounds)
  refine ⟨hends, ?_, hloopless.runProgram _⟩
  rcases hends with h | h | h
  · rw [h.answer]
    exact fun hfuel => hsettled _ hfuel
  · rw [h]
    rintro ⟨⟩
  · rw [h]
    rintro ⟨⟩

/-- Two functions that call each other without an end, one of them twice. -/
def pingPong : Program :=
  ⟨[.function "ping" [⟨"n", .int⟩] .int
      [.ret (some (.binary (.call "pong" [.binary (.var "n") .add (.literal (.int 1))]) .add
        (.call "pong" [.call "twice" [.var "n"]])))],
    .function "pong" [⟨"n", .int⟩] .int [.print (.var "n"), .ret (some (.call "ping" [.var "n"]))],
    .print (.call "ping" [.literal (.int 1)])]⟩

/-- A world that knows a function that doubles a number, and one that the program defines anew. -/
def doubling : World :=
  { World.start "" false with
    functions := [
      ("twice", ⟨"twice", [⟨"n", .int⟩], .int, [.ret (some (.binary (.var "n") .mul (.literal (.int 2))))]⟩),
      ("pong", ⟨"pong", [], .void, [.whileLoop (.literal (.bool true)) []]⟩)] }

/-- The calls go on until they come to their bound. -/
theorem pingPong_terminates :
    pingPong.Loopless ∧
    (∀ x f, doubling.functions.get? x = some f → (∀ g ∈ pingPong.functions, g.name ≠ x) →
      allLoopless f.body = true) ∧
    (∃ o : Outcome Unit, Settled o.answer ∧ o.Alike ((discard (executeBlock ⟨5, 0⟩ 50 pingPong.actions) : Run Unit).run
      (pingPong.functions.foldl World.define doubling))) ∧
    ((runProgram ⟨5, 0⟩ pingPong).run doubling).answer = .error (.failed (.depthExceeded 5 "pong")) ∧
    ((runProgram ⟨5, 0⟩ pingPong).run doubling).world.output = "2\n3\n" := by
  have hp : pingPong.Loopless := by decide
  have hw : ∀ x f, doubling.functions.get? x = some f → (∀ g ∈ pingPong.functions, g.name ≠ x) →
      allLoopless f.body = true := by
    intro x f hf hnames
    have hmem := Assoc.mem_of_get? hf
    simp only [doubling, List.mem_cons, List.not_mem_nil, or_false, Prod.mk.injEq] at hmem
    rcases hmem with ⟨rfl, rfl⟩ | ⟨rfl, rfl⟩
    · rfl
    · exact absurd rfl (hnames ⟨"pong", _, _, _⟩ (List.mem_cons_of_mem _ List.mem_cons_self))
  obtain ⟨o, hsettled, ho, -⟩ := runProgram_terminates hp hw 5
  exact ⟨hp, hw, ⟨o, hsettled, ho 0 50 (by decide)⟩, rfl, rfl⟩

/-! ### Functions with loops that are already known -/

/-- A loop that can always go round uses up all of its rounds. -/
theorem repeatWhile_runs_on {condition : Run Bool} {body : Run Flow} {step : Run Unit}
    (h : ∀ w, ∃ w₁ w₂ w₃, condition w = .ok true w₁ ∧ body w₁ = .ok .normal w₂ ∧ step w₂ = .ok () w₃) (rounds : Nat)
    (w : World) : ∃ u, repeatWhile condition body step rounds w = .error .outOfFuel u := by
  induction rounds generalizing w with
  | zero => exact ⟨w, rfl⟩
  | succ rounds ih =>
    obtain ⟨w₁, w₂, w₃, hcondition, hbody, hstep⟩ := h w
    simp only [repeatWhile, hcondition, hbody, hstep]
    exact ih w₃

/-- A loop over an empty block that nothing ends. -/
def endlessLoop : Stmt := .whileLoop (.literal (.bool true)) []

theorem execute_endlessLoop (b : Bounds) (n : Nat) (w : World) :
    ∃ u, execute b (n + 2) endlessLoop w = .error .outOfFuel u := by
  refine repeatWhile_runs_on (fun w => ?_) b.rounds w
  obtain ⟨events, hrecord⟩ := w.record_eq (.condition .whileLoop true)
  exact ⟨_, _, _, congrArg (EStateM.Result.ok true) hrecord, rfl, rfl⟩

/-- A world that knows a function with that loop, as the declaration of the function leaves it. -/
def endlessWorld : World := { World.start "" false with functions := [("f", ⟨"f", [], .void, [endlessLoop]⟩)] }

theorem call_endlessLoop {b : Bounds} {x : String} {t : Ty} {w : World}
    (hf : w.functions.get? x = some ⟨x, [], t, [endlessLoop]⟩) (hdepth : (w.store.depth : Int) < b.calls) (n : Nat) :
    ∃ u, call b (n + 4) x [] w = .error .outOfFuel u := by
  have hcallable : callable b w.functions w.store.depth x 0 = .ok ⟨x, [], t, [endlessLoop]⟩ := by
    rw [callable, hf]
    exact if_neg (Int.not_le.mpr hdepth)
  have hcallee : Watched.callee b x ([] : List Expr).length w = .ok ⟨x, [], t, [endlessLoop]⟩ w := by
    rw [List.length_nil, callee_eq, hcallable, endIn_ok]
  obtain ⟨events, hrecord⟩ := w.record_eq (.call x [])
  have hreport : reportCall x [] w = .ok () { w with events := events } := congrArg (EStateM.Result.ok ()) hrecord
  obtain ⟨u, hu⟩ := execute_endlessLoop b n { w with store := w.store.push [], events := events }
  have hframe : Run.inFrame [] (executeBlock b (n + 3) [endlessLoop]) { w with events := events } =
      .error .outOfFuel { u with store := u.store.dropFrame } := by
    rw [executeBlock, sequence_singleton, Run.inFrame_eq]
    simp only [hu]
  have hnone : bindArguments (evaluate b (n + 3)) x 1 [] [] w = .ok [] w := rfl
  rw [call_succ, State.bind_of_ok hcallee, State.bind_of_ok hnone]
  exact ⟨_, (State.bind_of_ok hreport).trans (State.bind_of_error hframe)⟩

/-- The program that calls the function and has no loop itself. -/
def endlessCall : Program := ⟨[.expr (.call "f" [])]⟩

theorem executeBlock_endlessCall {b : Bounds} (hcalls : 0 < b.calls) (n : Nat) :
    ∃ u, executeBlock b (n + 6) endlessCall.actions endlessWorld = .error .outOfFuel u := by
  obtain ⟨u, hu⟩ := call_endlessLoop (x := "f") (t := .void) (w := endlessWorld) rfl hcalls n
  exact ⟨u, State.bind_of_error (State.bind_of_error (State.discard_of_error hu))⟩

/-- A program without loops does not terminate if it calls a function that is known and has a loop: however many rounds
    the loop is given, it uses them up. -/
theorem endlessCall_runs_on :
    endlessCall.Loopless ∧
    (runProgram ⟨1000, 0⟩ ⟨[.function "f" [] .void [endlessLoop]]⟩).run (World.start "" false) =
      ⟨.ok (), endlessWorld⟩ ∧
    ∀ rounds, ((runProgram ⟨1000, rounds⟩ endlessCall).run endlessWorld).answer = .error .outOfFuel := by
  refine ⟨by decide, rfl, fun rounds => ?_⟩
  have hgranted : Bounds.isGranted ⟨1000, rounds⟩ = true := rfl
  obtain ⟨u, hu⟩ := executeBlock_endlessCall (b := ⟨1000, rounds⟩) (Int.natCast_pos.mpr (by decide : 0 < 1000)) 20994
  rw [run_runProgram hgranted]
  exact congrArg Outcome.answer (Run.run_of_error (State.discard_of_error hu))

end Execution
end TypedImp
