import TypedImp.Proofs.Execution.Moments

/-! What the elementary steps of a run do, each as one equation: how it ends, and in which world. A run of several
    steps is then followed without opening them. -/

namespace TypedImp
namespace Execution

variable {α : Type}

/-- The end of a run in a given world. -/
def endIn (answer : Except Stop α) (w : World) : EStateM.Result Stop World α :=
  match answer with
  | .ok a => .ok a w
  | .error e => .error e w

@[simp] theorem endIn_ok (a : α) (w : World) : endIn (.ok a) w = .ok a w := rfl

@[simp] theorem endIn_error (e : Stop) (w : World) : endIn (.error e : Except Stop α) w = .error e w := rfl

/-! ### Worlds -/

namespace World

/-- A record changes nothing but the events. -/
theorem record_eq (w : World) (e : Event) : ∃ events, w.record e = { w with events := events } := by
  unfold record
  split
  · exact ⟨e :: w.events, rfl⟩
  · exact ⟨w.events, rfl⟩

/-- The first line of an input without its end, and what follows it. -/
def nextLine? (input : List Char) : Option (String × List Char) :=
  if input.isEmpty then none
  else
    let line := input.takeWhile (· ≠ '\n')
    some (String.ofList line, input.drop (line.length + 1))

/-- Reading a line changes nothing but the input. -/
theorem readLine?_eq (w : World) :
    w.readLine? = (nextLine? w.input).map fun l => (l.1, { w with input := l.2 }) := by
  unfold readLine? nextLine?
  split
  · rfl
  · rfl

end World

/-! ### Steps -/

theorem Run.ask_eq (question : Store → Except StoreError α) (w : World) :
    Run.ask question w = endIn ((question w.store).mapError fun e => .failed (.store e)) w := by
  cases h : question w.store with
  | ok a => exact Run.ask_of_ok h
  | error e => exact Run.ask_of_error h

theorem declareVariable_eq (x : String) (t : Ty) (v : Option Value) (w : World) :
    ∃ events, declareVariable x t v w = .ok () { w with store := w.store.declare x t v, events := events } := by
  obtain ⟨events, h⟩ := World.record_eq { w with store := w.store.declare x t v } (.declare x t v)
  exact ⟨events, congrArg (EStateM.Result.ok ()) h⟩

theorem assignVariable_eq (x : String) (v : Value) (w : World) :
    assignVariable x v w =
      match w.store.set x v with
      | .ok s => .ok () { w with store := s }
      | .error e => .error (.failed (.store e)) w := by
  unfold assignVariable
  cases h : w.store.set x v with
  | ok s => exact State.bind_of_ok (Run.ask_of_ok h)
  | error e => exact State.bind_of_error (Run.ask_of_error h)

theorem printValue_eq (v : Value) (w : World) :
    printValue v w = if v.isTooLong then .error (.failed .tooLongToShow) w else .ok () (w.write (v.text ++ "\n")) := by
  unfold printValue
  split
  · rfl
  · rfl

/-- The value that is read goes to the variable as it was bound before the line was asked for. -/
theorem readVariable_eq (x : String) (w : World) :
    readVariable x w =
      match w.store.lookup x with
      | .error e => .error (.failed (.store e)) w
      | .ok c =>
        let w₁ := w.write (x ++ " = ")
        match World.nextLine? w.input with
        | none => .error (.failed .endOfInput) w₁
        | some (line, rest) =>
          let w₂ := { w₁ with input := rest }
          match Value.read c.ty line with
          | .error e => .error (.failed (.invalidInput x e)) w₂
          | .ok v => .ok () { w₂ with store := w.store.declare x c.ty (some v) } := by
  unfold readVariable
  cases hx : w.store.lookup x with
  | error e => exact State.bind_of_error (Run.ask_of_error hx)
  | ok c =>
    rw [State.bind_of_ok (Run.ask_of_ok hx)]
    have hwrite : (modify fun w => w.write (x ++ " = ") : Run Unit) w = .ok () (w.write (x ++ " = ")) := rfl
    have hget : (get : Run World) (w.write (x ++ " = ")) = .ok (w.write (x ++ " = ")) (w.write (x ++ " = ")) := rfl
    rw [State.bind_of_ok hwrite, State.bind_of_ok hget, World.readLine?_eq,
      show (w.write (x ++ " = ")).input = w.input from rfl]
    cases World.nextLine? w.input with
    | none => rfl
    | some l =>
      have hset : (set { w.write (x ++ " = ") with input := l.2 } : Run PUnit) (w.write (x ++ " = ")) =
        .ok () { w.write (x ++ " = ") with input := l.2 } := rfl
      dsimp only [Option.map_some]
      rw [State.bind_of_ok hset]
      cases Value.read c.ty l.1 with
      | error e => rfl
      | ok v => rfl

/-- The variable that an assignment would change is looked for in the world as it is. -/
theorem targetType_eq (x : String) (w : World) :
    Watched.targetType x w = endIn (((w.store.assignable x).map (·.ty)).mapError fun e => .failed (.store e)) w := by
  unfold Watched.targetType
  cases h : w.store.assignable x with
  | ok c => exact State.bind_of_ok (Run.ask_of_ok h)
  | error e => exact State.bind_of_error (Run.ask_of_error h)

/-- The function that a call may call where so many calls are active. -/
def callable (b : Bounds) (functions : Assoc Function) (depth : Nat) (x : String) (arity : Nat) :
    Except Stop Function :=
  match functions.get? x with
  | none => .error (.failed (.undefinedFunction x))
  | some f =>
    if arity ≠ f.params.length then .error (.failed (.wrongArity f.name f.params.length arity))
    else if b.calls ≤ depth then .error (.failed (.depthExceeded b.calls f.name))
    else .ok f

theorem callable_eq_ok {b : Bounds} {functions : Assoc Function} {depth arity : Nat} {x : String} {f : Function}
    (h : callable b functions depth x arity = .ok f) :
    functions.get? x = some f ∧ arity = f.params.length ∧ (depth : Int) < b.calls := by
  unfold callable at h
  split at h
  · cases h
  · next g hg =>
    split at h
    · cases h
    · next harity =>
      split at h
      · cases h
      · next hdepth =>
        cases h
        exact ⟨hg, Decidable.of_not_not harity, Int.not_le.mp hdepth⟩

theorem callee_eq (b : Bounds) (x : String) (arity : Nat) (w : World) :
    Watched.callee b x arity w = endIn (callable b w.functions w.store.depth x arity) w := by
  have hget : (get : Run World) w = .ok w w := rfl
  unfold Watched.callee callable
  rw [State.bind_of_ok hget]
  cases w.functions.get? x with
  | none => rfl
  | some f =>
    dsimp only
    split
    · rfl
    · split
      · rfl
      · rfl

/-- A call finds its function, runs the arguments in the frame of the caller and the body in a frame of its own. -/
theorem call_succ (b : Bounds) (n : Nat) (x : String) (args : List Expr) :
    call b (n + 1) x args = (do
      let f ← Watched.callee b x args.length
      let frame := Assoc.ofList (← bindArguments (evaluate b n) f.name 1 f.params args)
      reportCall f.name (frame.filterMap fun e => e.2.value)
      let flow ← Run.inFrame frame (executeBlock b n f.body)
      resultOf f flow) := by
  unfold call Watched.callee
  rw [bind_assoc]
  congr 1
  funext w
  cases w.functions.get? x with
  | none => rfl
  | some f =>
    dsimp only
    split
    · rfl
    · split
      · rfl
      · rfl

/-- The frame is pushed before the run and dropped after it. -/
theorem Run.inFrame_eq (frame : Frame) (r : Run α) (w : World) :
    Run.inFrame frame r w =
      match r { w with store := w.store.push frame } with
      | .ok a w' => .ok a { w' with store := w'.store.dropFrame }
      | .error e w' => .error e { w' with store := w'.store.dropFrame } := rfl

theorem Run.inFrame_of_endIn {frame : Frame} {r : Run α} {w u : World} {answer : Except Stop α}
    (h : r { w with store := w.store.push frame } = endIn answer u) :
    Run.inFrame frame r w = endIn answer { u with store := u.store.dropFrame } := by
  rw [Run.inFrame_eq, h]
  cases answer <;> rfl

/-! ### Programs -/

/-- First the functions are defined, and then the other statements run. -/
theorem run_runProgram {b : Bounds} (h : b.isGranted = true) (p : Program) (w : World) :
    (runProgram b p).run w =
      (discard (executeBlock b b.budget p.actions) : Run Unit).run (p.functions.foldl World.define w) := by
  rw [runProgram, if_pos h]
  rfl

/-- Where the machine refuses the nesting, the functions are defined, and nothing runs. -/
theorem run_runProgram_refused {b : Bounds} (h : b.isGranted = false) (p : Program) (w : World) :
    (runProgram b p).run w = ⟨.error (.failed .nestingRefused), p.functions.foldl World.define w⟩ := by
  rw [runProgram, h]
  rfl

end Execution
end TypedImp
