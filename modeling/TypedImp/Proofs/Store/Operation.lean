import TypedImp.Proofs.Execution.Isolation

/-! What can be asked of a store, one thing after the other: frames come and go, variables are declared, assigned and
    read, and some of it fails. Wherever no global is declared on the way, the globals keep their names and types, and
    only an assignment whose name is not bound in the innermost frame gives one of them a new value. -/

namespace TypedImp

/-! ### New values for variables -/

/-- From `f` to `g` the variables for which there is a new value have got it. The others have kept theirs, and all of
    them have kept their places and types. -/
structure Frame.Assigned (new : String → Option Value) (f g : Frame) : Prop where
  shape : g.shape = f.shape
  bound : ∀ x, g.get? x = (f.get? x).map fun b => { b with value := (new x).or b.value }

namespace Frame.Assigned
variable {new later : String → Option Value} {f g h : Frame}

theorem refl (f : Frame) : Frame.Assigned (fun _ => none) f f where
  shape := rfl
  bound x := by simp

/-- The later value counts. -/
theorem trans (hfg : Frame.Assigned new f g) (hgh : Frame.Assigned later g h) :
    Frame.Assigned (fun x => (later x).or (new x)) f h where
  shape := hgh.shape.trans hfg.shape
  bound x := by
    rw [hgh.bound, hfg.bound, Option.map_map]
    simp only [Function.comp_def, Option.or_assoc]

theorem insert {x : String} {b : Binding} (hx : f.get? x = some b) (v : Value) :
    Frame.Assigned (fun y => if y = x then some v else none) f (Assoc.insert f x ⟨b.ty, some v⟩) where
  shape := Frame.shape_insert hx (some v)
  bound y := by
    by_cases hyx : y = x
    · rw [hyx, Assoc.get?_insert_self, hx, if_pos rfl]
      rfl
    · rw [Assoc.get?_insert_of_ne f _ hyx, if_neg hyx]
      simp

end Frame.Assigned

namespace Store
variable {s t : Store}

/-! ### Operations -/

/-- What can be asked of a store. An assignment may come without a value. -/
inductive Operation where
  | declare (name : String) (ty : Ty) (value : Option Value)
  | set (name : String) (value : Option Value)
  | get (name : String)
  | lookup (name : String)
  | assignable (name : String)
  | push (frame : Frame)
  | pop

namespace Operation

/-- What the store answers, as a step that leaves it as it is. -/
def look {α : Type} (question : Store → Except StoreError α) : EStateM StoreError Store α := do
  match question (← MonadState.get) with
  | .ok a => return a
  | .error e => throw e

def ask {α : Type} (question : Store → Except StoreError α) : EStateM StoreError Store Unit := discard (look question)

/-- Puts what becomes of the store in its place. -/
def change (next : Store → Except StoreError Store) : EStateM StoreError Store Unit := do
  let t ← look next
  modify fun _ => t

/-- What the operation does to the store, whatever it answers. -/
def run : Operation → EStateM StoreError Store Unit
  | declare x ty v => change fun s => .ok (s.declare x ty v)
  | set x v => change fun s => s.setOption x v
  | get x => ask fun s => s.get x
  | lookup x => ask fun s => s.lookup x
  | assignable x => ask fun s => s.assignable x
  | push frame => change fun s => .ok (s.push frame)
  | pop => change Store.pop

/-- The store behind the operation, also where it has failed. -/
def after (op : Operation) (s : Store) : Store :=
  match op.run s with
  | .ok _ t | .error _ t => t

def succeeds (op : Operation) (s : Store) : Bool :=
  match op.run s with
  | .ok _ _ => true
  | .error _ _ => false

section Parts
variable {α : Type} {question : Store → Except StoreError α} {next : Store → Except StoreError Store} {e : StoreError}

theorem look_of_ok {a : α} (h : question s = .ok a) : look question s = .ok a s := by
  rw [look, State.get_bind, h]
  rfl

theorem look_of_error (h : question s = .error e) : look question s = .error e s := by
  rw [look, State.get_bind, h]
  rfl

theorem ask_cases (question : Store → Except StoreError α) (s : Store) :
    ask question s = .ok () s ∨ ∃ e, ask question s = .error e s := by
  cases h : question s with
  | ok a => exact .inl (State.discard_of_ok (look_of_ok h))
  | error e => exact .inr ⟨e, State.discard_of_error (look_of_error h)⟩

theorem change_of_ok (h : next s = .ok t) : change next s = .ok () t := State.bind_of_ok (look_of_ok h)

theorem change_of_error (h : next s = .error e) : change next s = .error e s := State.bind_of_error (look_of_error h)

theorem eq_of_ask_error (h : ask question s = .error e t) : t = s := by
  rcases ask_cases question s with hs | ⟨e', hs⟩
  · cases hs.symm.trans h
  · cases hs.symm.trans h
    rfl

theorem eq_of_change_error (h : change next s = .error e t) : t = s := by
  cases hs : next s with
  | ok t' => cases (change_of_ok hs).symm.trans h
  | error e' =>
    cases (change_of_error hs).symm.trans h
    rfl

end Parts

variable {op : Operation} {x : String} {v : Value} {e : StoreError}

/-- What fails leaves the store as it was. -/
theorem eq_of_run_error (h : op.run s = .error e t) : t = s := by
  cases op with
  | declare | set | push | pop => exact eq_of_change_error h
  | get | lookup | assignable => exact eq_of_ask_error h

theorem after_of_ok {u : Unit} (h : op.run s = .ok u t) : op.after s = t := by rw [after, h]

theorem after_of_error (h : op.run s = .error e t) : op.after s = s := by rw [after, h, eq_of_run_error h]

/-! ### What each operation does -/

theorem after_declare (x : String) (ty : Ty) (v : Option Value) (s : Store) :
    (declare x ty v).after s = s.declare x ty v := rfl

theorem after_push (frame : Frame) (s : Store) : (push frame).after s = s.push frame := rfl

/-- Questions change nothing. -/
theorem after_of_asks {α : Type} {question : Store → Except StoreError α} (h : op.run = ask question) (s : Store) :
    op.after s = s := by
  rcases ask_cases question s with hs | ⟨e, hs⟩
  · exact after_of_ok ((congrFun h s).trans hs)
  · exact after_of_error ((congrFun h s).trans hs)

@[simp] theorem after_get (x : String) (s : Store) : (get x).after s = s := after_of_asks rfl s

@[simp] theorem after_lookup (x : String) (s : Store) : (lookup x).after s = s := after_of_asks rfl s

@[simp] theorem after_assignable (x : String) (s : Store) : (assignable x).after s = s := after_of_asks rfl s

/-- An assignment fails, as it always does without a value, or it is made. -/
theorem run_set_cases (x : String) (o : Option Value) (s : Store) :
    (∃ e, (set x o).run s = .error e s) ∨ ∃ v t, o = some v ∧ s.set x v = .ok t ∧ (set x o).run s = .ok () t := by
  cases h : s.setOption x o with
  | error e => exact .inl ⟨e, change_of_error h⟩
  | ok t =>
    cases o with
    | some v => exact .inr ⟨v, t, rfl, h, change_of_ok h⟩
    | none =>
      -- The name is looked for all the same, but neither answer leads to a store.
      rw [setOption] at h
      cases hb : s.assignable x with
      | ok b | error e =>
        rw [hb] at h
        cases h

theorem run_pop (h : s.frames ≠ []) : pop.run s = .ok () s.dropFrame :=
  change_of_ok (by rw [Store.pop, List.isEmpty_eq_false_iff.mpr h]; rfl)

/-- Where no call is active, a pop fails, and there is no frame to drop. -/
theorem after_pop (s : Store) : pop.after s = s.dropFrame := by
  obtain ⟨globals, frames⟩ := s
  cases frames with
  | nil => exact after_of_error (change_of_error rfl)
  | cons frame frames => exact after_of_ok (run_pop (List.cons_ne_nil _ _))

end Operation

/-! ### Values that globals get -/

/-- An operation and the store that it meets. -/
structure Step where
  store : Store
  operation : Operation

/-- The value that the step gives to a global: by an assignment that is made, to a name that the innermost frame does
    not bind. -/
def Step.given? (step : Step) (x : String) : Option Value :=
  match step.operation with
  | .set y (some v) => if x = y ∧ step.operation.succeeds step.store ∧ ¬ step.store.isLocal x then some v else none
  | _ => none

/-- A declaration where no call is active, which binds its name among the globals. -/
def Step.DeclaresGlobal (step : Step) : Prop :=
  step.store.frames = [] ∧ ∃ x ty v, step.operation = .declare x ty v

theorem globals_mapCurrent (h : s.frames ≠ []) (f : Frame → Frame) : (s.mapCurrent f).globals = s.globals := by
  obtain ⟨frame, frames, hs⟩ := List.exists_cons_of_ne_nil h
  rw [mapCurrent, hs]

theorem frames_ne_nil_of_isLocal {x : String} (h : s.isLocal x = true) : s.frames ≠ [] := by
  intro hs
  rw [isLocal, hs] at h
  cases h

namespace Step

theorem given?_of_error {x : String} {o : Option Value} {e : StoreError} (h : (Operation.set x o).run s = .error e t) :
    given? ⟨s, .set x o⟩ = fun _ => none := by
  funext y
  cases o with
  | none => rfl
  | some v => simp [given?, Operation.succeeds, h]

theorem given?_of_ok {x : String} {v : Value} {u : Unit} (h : (Operation.set x (some v)).run s = .ok u t) :
    given? ⟨s, .set x (some v)⟩ = fun y => if y = x ∧ s.isLocal x = false then some v else none := by
  funext y
  by_cases hyx : y = x
  · simp [given?, Operation.succeeds, h, hyx]
  · simp [given?, hyx]

/-- An assignment whose name the innermost frame does not bind has found it among the globals. -/
theorem globals_set (s : Store) (x : String) (o : Option Value) :
    Frame.Assigned (given? ⟨s, .set x o⟩) s.globals ((Operation.set x o).after s).globals := by
  rcases Operation.run_set_cases x o s with ⟨e, hrun⟩ | ⟨v, t, rfl, hs, hrun⟩
  · rw [given?_of_error hrun, Operation.after_of_error hrun]
    exact .refl _
  · rw [given?_of_ok hrun, Operation.after_of_ok hrun]
    obtain ⟨b, -, ⟨hlocal, -, rfl⟩ | ⟨hlocal, hb, rfl⟩⟩ := set_target hs
    · simp only [hlocal, globals_mapCurrent (frames_ne_nil_of_isLocal hlocal), Bool.true_eq_false, and_false, if_false]
      exact .refl _
    · simp only [hlocal, and_true]
      exact .insert hb v

/-- A step gives values to globals and does nothing else to them, unless it declares one. -/
theorem globals_after (step : Step) (h : ¬ step.DeclaresGlobal) :
    Frame.Assigned step.given? step.store.globals (step.operation.after step.store).globals := by
  obtain ⟨s, op⟩ := step
  cases op with
  | declare x ty v =>
    -- With a call active the declaration goes to its frame.
    have hframes : s.frames ≠ [] := fun hs => h ⟨hs, x, ty, v, rfl⟩
    rw [Operation.after_declare, declare, globals_mapCurrent hframes]
    exact .refl _
  | set x o => exact globals_set s x o
  | get | lookup | assignable =>
    simp only [Operation.after_get, Operation.after_lookup, Operation.after_assignable]
    exact .refl _
  | push frame => exact .refl _
  | pop =>
    rw [Operation.after_pop]
    exact .refl _

end Step

/-! ### Operations one after the other -/

/-- The store behind all of the operations. -/
def afterAll (s : Store) (ops : List Operation) : Store := ops.foldl (fun s op => op.after s) s

/-- The operations with the stores that they meet, one after the other. -/
def steps : Store → List Operation → List Step
  | _, [] => []
  | s, op :: ops => ⟨s, op⟩ :: steps (op.after s) ops

/-- The value that the last step of those that give one to the global gives to it. -/
def lastGiven? (sts : List Step) (x : String) : Option Value := (sts.filterMap fun step => step.given? x).getLast?

theorem afterAll_append (s : Store) (ops ops' : List Operation) :
    s.afterAll (ops ++ ops') = (s.afterAll ops).afterAll ops' := List.foldl_append

theorem steps_of_append (s : Store) (ops ops' : List Operation) :
    s.steps (ops ++ ops') = s.steps ops ++ (s.afterAll ops).steps ops' := by
  induction ops generalizing s with
  | nil => rfl
  | cons op ops ih => exact congrArg (⟨s, op⟩ :: ·) (ih (op.after s))

theorem lastGiven?_cons (step : Step) (sts : List Step) :
    lastGiven? (step :: sts) = fun x => (lastGiven? sts x).or (step.given? x) := by
  funext x
  unfold lastGiven?
  rw [List.filterMap_cons]
  cases step.given? x with
  | none => exact Option.or_none.symm
  | some v =>
    dsimp only
    rw [List.getLast?_cons]
    cases (sts.filterMap fun step => step.given? x).getLast? <;> rfl

/-- A run in which no step declares a global gives values to globals, where the last ones count. -/
theorem globals_afterAll {ops : List Operation} (h : ∀ step ∈ s.steps ops, ¬ step.DeclaresGlobal) :
    Frame.Assigned (lastGiven? (s.steps ops)) s.globals (s.afterAll ops).globals := by
  induction ops generalizing s with
  | nil => exact .refl _
  | cons op ops ih =>
    rw [steps, List.forall_mem_cons] at h
    rw [steps, lastGiven?_cons]
    exact (Step.globals_after _ h.1).trans (ih h.2)

end Store
end TypedImp
