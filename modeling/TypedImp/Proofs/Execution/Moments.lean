import TypedImp.Execution.Interpreter
import TypedImp.Proofs.Execution.Retyping

/-! Runs moment by moment. A watched run does what a run does, and keeps what can be seen on its way: the world
    behind every elementary step, also inside of calls whose frames are gone when the run has ended, and the
    values that expressions and calls have given. The interpreter is written here once more over watched runs;
    without its moments a watched run is the run itself. -/

namespace TypedImp
namespace Execution

/-- What can be seen at one moment of a run: the world, and the values that have just been given. -/
structure Moment where
  world : World
  values : List Value

/-- The way of a run: its moments, the first one first, and how it ends. -/
structure Course (α : Type) where
  moments : List Moment
  result : EStateM.Result Stop World α

def Watched (α : Type) : Type := World → Course α

namespace Watched
variable {α β : Type}

/-- The run without its moments. -/
def run (r : Watched α) : Run α := fun w => (r w).result

/-! ### Steps -/

/-- A run as one step, which is seen when it is done. -/
def step (r : Run α) : Watched α := fun w => ⟨[⟨(r.run w).world, []⟩], r w⟩

instance : Monad Watched where
  pure a := fun w => ⟨[], .ok a w⟩
  bind r k := fun w =>
    match (r w).result with
    | .ok a w' => ⟨(r w).moments ++ (k a w').moments, (k a w').result⟩
    | .error e w' => ⟨(r w).moments, .error e w'⟩

/-- The values that the answer gives are seen at the end. -/
def giving (values : α → List Value) (r : Watched α) : Watched α := fun w =>
  match (r w).result with
  | .ok a w' => ⟨(r w).moments ++ [⟨w', values a⟩], .ok a w'⟩
  | .error e w' => ⟨(r w).moments, .error e w'⟩

/-- A run with a frame of its own. The frame is seen when it is there, and the world when it is gone. -/
def inFrame (frame : Frame) (r : Watched α) : Watched α := fun w =>
  let pushed := { w with store := w.store.push frame }
  ⟨⟨pushed, []⟩ :: (r pushed).moments ++ [⟨((Run.inFrame frame r.run).run w).world, []⟩],
    Run.inFrame frame r.run w⟩

@[simp] theorem run_pure (a : α) : (pure a : Watched α).run = pure a := rfl

@[simp] theorem run_step (r : Run α) : (step r).run = r := rfl

@[simp] theorem run_inFrame (frame : Frame) (r : Watched α) : (inFrame frame r).run = Run.inFrame frame r.run := rfl

@[simp] theorem run_bind (r : Watched α) (k : α → Watched β) : (r >>= k).run = r.run >>= fun a => (k a).run := by
  funext w
  show ((r >>= k) w).result = EStateM.bind r.run (fun a => (k a).run) w
  unfold EStateM.bind run
  simp only [bind]
  cases (r w).result <;> rfl

@[simp] theorem run_giving (values : α → List Value) (r : Watched α) : (r.giving values).run = r.run := by
  funext w
  show (r.giving values w).result = (r w).result
  unfold giving
  cases (r w).result <;> rfl

/-! ### Loops and arguments -/

def sequence (run : Stmt → Watched Flow) : List Stmt → Watched Flow
  | [] => return .normal
  | s :: ss => do
    match ← run s with
    | .normal => sequence run ss
    | .returning v => return .returning v

def repeatWhile (condition : Watched Bool) (body : Watched Flow) (step : Watched Unit) : Nat → Watched Flow
  | 0 => .step fun w => .error .outOfFuel w
  | rounds + 1 => do
    if ← condition then
      match ← body with
      | .returning v => return .returning v
      | .normal =>
        step
        repeatWhile condition body step rounds
    else return .normal

def bindArguments (run : Expr → Watched Value) (name : String) :
    Nat → List Param → List Expr → Watched (List (String × Binding))
  | index, p :: params, e :: args => do
    let v ← run e
    let v ← step (Run.require v p.ty (.badArgument index name p.ty))
    let rest ← bindArguments run name (index + 1) params args
    return (p.name, ⟨p.ty, some v⟩) :: rest
  | _, _, _ => return []

/-- The function that a call with so many arguments may call now. -/
def callee (b : Bounds) (name : String) (arity : Nat) : Run Function := do
  let w ← get
  match w.functions.get? name with
  | none => Run.fail (.undefinedFunction name)
  | some f =>
    if arity ≠ f.params.length then Run.fail (.wrongArity f.name f.params.length arity)
    else if b.calls ≤ w.store.depth then Run.fail (.depthExceeded b.calls f.name)
    else return f

/-- The type of the variable that an assignment would change. -/
def targetType (name : String) : Run Ty := do
  let target ← Run.ask fun s => s.assignable name
  return target.ty

/-! ### The interpreter -/

mutual
def evaluate (b : Bounds) : Nat → Expr → Watched Value
  | 0, _ => step (Run.fail .stackExhausted)
  | n + 1, e => giving (fun v => [v]) <|
    match e with
    | .literal v => pure v
    | .var name => step (Run.ask fun s => s.get name)
    | .unary op operand => do
      let v ← evaluate b n operand
      step (Run.operate (Value.unary op v))
    | .binary left op right => do
      let l ← evaluate b n left
      if op.family = .logical then
        let decided ← step (asBool op l)
        if decidesAlone op decided then return l
        let r ← evaluate b n right
        discard (step (asBool op r))
        return r
      else
        let r ← evaluate b n right
        step (Run.operate (Value.binary op l r))
    | .call name args => do
      match ← call b n name args with
      | some v => return v
      | none => step (Run.fail (.noResult name))
    | .stray node => step (Run.fail (.strayExpression node))
    | .misnamed name _ => step (Run.fail (.misnamed name))

def call (b : Bounds) : Nat → String → List Expr → Watched (Option Value)
  | 0, _, _ => step (Run.fail .stackExhausted)
  | n + 1, name, args => giving Option.toList <| do
    let f ← step (callee b name args.length)
    let entries ← bindArguments (evaluate b n) f.name 1 f.params args
    let frame := Assoc.ofList entries
    step (reportCall f.name (frame.filterMap fun e => e.2.value))
    let flow ← inFrame frame (executeBlock b n f.body)
    step (resultOf f flow)

def execute (b : Bounds) : Nat → Stmt → Watched Flow
  | 0, _ => step (Run.fail .stackExhausted)
  | n + 1, s =>
    match s with
    | .varDecl name ty init => do
      match init with
      | none => step (declareVariable name ty none)
      | some e =>
        let v ← evaluate b n e
        let v ← step (Run.require v ty (.badInitializer name ty))
        step (declareVariable name ty (some v))
      return .normal
    | .assign name value => do
      let ty ← step (targetType name)
      let v ← evaluate b n value
      let v ← step (Run.widen v ty)
      step (assignVariable name v)
      return .normal
    | .print e => do
      let v ← evaluate b n e
      step (printValue v)
      return .normal
    | .input name => do
      step (readVariable name)
      return .normal
    | .ifThen cond body => do
      let v ← evaluate b n cond
      if ← step (asCondition .ifStatement v) then executeBlock b n body
      else return .normal
    | .ifElse cond yes no => do
      let v ← evaluate b n cond
      if ← step (asCondition .ifStatement v) then executeBlock b n yes
      else executeBlock b n no
    | .whileLoop cond body =>
      repeatWhile (evaluate b n cond >>= fun v => step (asCondition .whileLoop v)) (executeBlock b n body)
        (pure ()) b.rounds
    | .forLoop init cond step' body => do
      discard (execute b n init)
      repeatWhile (evaluate b n cond >>= fun v => step (asCondition .forLoop v)) (executeBlock b n body)
        (discard (execute b n step')) b.rounds
    | .function name _ _ _ => step (Run.fail (.functionNotAtTop name))
    | .ret none => return .returning none
    | .ret (some e) => do
      let v ← evaluate b n e
      return .returning (some v)
    | .expr e => do
      match e with
      | .call name args => discard (call b n name args)
      | e => discard (evaluate b n e)
      return .normal
    | .block body => executeBlock b n body
    | .stray node => step (Run.fail (.strayStatement node))
    | .misnamed name init _ => do
      match init with
      | none => pure ()
      | some (ty, e) =>
        let v ← evaluate b n e
        discard (step (Run.require v ty (.badInitializer name.asText ty)))
      step (Run.fail (.misnamed name))
    | .notBlock node => step (Run.fail (.notABlock node))

def executeBlock (b : Bounds) : Nat → List Stmt → Watched Flow
  | 0, _ => step (Run.fail .stackExhausted)
  | n + 1, body => sequence (execute b n) body
end

/-! ### Without the moments -/

@[simp] theorem run_discard (r : Watched α) : (discard r).run = discard r.run := by
  rw [show (discard r : Watched PUnit) = r >>= fun _ => pure PUnit.unit from rfl, run_bind]
  rfl

@[simp] theorem run_ite {c : Prop} [Decidable c] (r s : Watched α) :
    (if c then r else s).run = if c then r.run else s.run := apply_ite _ _ _ _

theorem run_sequence {r : Stmt → Watched Flow} {r' : Stmt → Run Flow} (h : ∀ s, (r s).run = r' s)
    (ss : List Stmt) : (sequence r ss).run = Execution.sequence r' ss := by
  induction ss with
  | nil => rfl
  | cons s ss ih =>
    rw [sequence, Execution.sequence, run_bind, h]
    congr 1
    funext flow
    cases flow with
    | normal => exact ih
    | returning v => rfl

theorem run_repeatWhile {condition : Watched Bool} {body : Watched Flow} {after : Watched Unit} (rounds : Nat) :
    (repeatWhile condition body after rounds).run =
      Execution.repeatWhile condition.run body.run after.run rounds := by
  induction rounds with
  | zero => rfl
  | succ rounds ih =>
    rw [repeatWhile_succ, repeatWhile, run_bind]
    congr 1
    funext holds
    rw [run_ite]
    congr 1
    rw [run_bind]
    congr 1
    funext flow
    cases flow with
    | returning v => rfl
    | normal =>
      dsimp only
      rw [run_bind, ih]

theorem run_bindArguments {r : Expr → Watched Value} {r' : Expr → Run Value} (h : ∀ e, (r e).run = r' e)
    (name : String) (index : Nat) (params : List Param) (args : List Expr) :
    (bindArguments r name index params args).run = Execution.bindArguments r' name index params args := by
  induction params generalizing index args with
  | nil => rfl
  | cons p params ih =>
    cases args with
    | nil => rfl
    | cons e args =>
      rw [bindArguments, Execution.bindArguments, run_bind, h]
      congr 1
      funext v
      rw [run_bind]
      congr 1
      funext v
      rw [run_bind, ih]
      rfl

/-- Watching does not change what expressions, calls, statements and blocks do within a budget. -/
structure RunsWithin (b : Bounds) (n : Nat) : Prop where
  evaluate : ∀ e, (evaluate b n e).run = Execution.evaluate b n e
  call : ∀ name args, (call b n name args).run = Execution.call b n name args
  execute : ∀ s, (execute b n s).run = Execution.execute b n s
  executeBlock : ∀ ss, (executeBlock b n ss).run = Execution.executeBlock b n ss

section Nested
variable {b : Bounds} {n : Nat}

theorem RunsWithin.evaluate_succ (h : RunsWithin b n) (e : Expr) :
    (Watched.evaluate b (n + 1) e).run = Execution.evaluate b (n + 1) e := by
  unfold Watched.evaluate Execution.evaluate
  rw [run_giving]
  cases e with
  | literal v => rfl
  | var name => rfl
  | unary op operand => simp only [run_bind, run_step, h.evaluate]
  | binary left op right =>
    simp only [run_bind, run_step, run_pure, run_discard, run_ite, h.evaluate]
  | call name args =>
    simp only [run_bind, h.call]
    congr 1
    funext result
    cases result <;> rfl
  | stray node => rfl
  | misnamed name node => rfl

/-- The callee is found in the world in which the call begins. -/
theorem RunsWithin.call_succ (h : RunsWithin b n) (name : String) (args : List Expr) :
    (Watched.call b (n + 1) name args).run = Execution.call b (n + 1) name args := by
  unfold Watched.call Execution.call callee
  simp only [run_giving, run_bind, run_step, run_inFrame, run_bindArguments h.evaluate, h.executeBlock, bind_assoc]
  congr 1
  funext w
  cases w.functions.get? name with
  | none => rfl
  | some f =>
    dsimp only
    split
    · rfl
    · split
      · rfl
      · rfl

theorem RunsWithin.condition (h : RunsWithin b n) (construct : Construct) (cond : Expr) :
    (Watched.evaluate b n cond >>= fun v => step (asCondition construct v)).run =
      Execution.evaluate b n cond >>= asCondition construct := by
  simp only [run_bind, run_step, h.evaluate]

theorem RunsWithin.execute_succ (h : RunsWithin b n) (s : Stmt) :
    (Watched.execute b (n + 1) s).run = Execution.execute b (n + 1) s := by
  unfold Watched.execute Execution.execute
  cases s with
  | varDecl name ty init =>
    cases init with
    | none => rfl
    | some e => simp only [run_bind, run_step, run_pure, h.evaluate]
  | assign name value =>
    simp only [run_bind, run_step, run_pure, h.evaluate, targetType, bind_assoc, pure_bind]
  | print e => simp only [run_bind, run_step, run_pure, h.evaluate]
  | input name => simp only [run_bind, run_step, run_pure]
  | ifThen cond body =>
    simp only [run_bind, run_step, run_pure, run_ite, h.evaluate, h.executeBlock]
  | ifElse cond yes no => simp only [run_bind, run_step, run_ite, h.evaluate, h.executeBlock]
  | whileLoop cond body =>
    simp only [run_repeatWhile, h.condition, h.executeBlock]
    rfl
  | forLoop init cond after body =>
    simp only [run_bind, run_discard, run_repeatWhile, h.condition, h.execute, h.executeBlock]
  | function name params result body => rfl
  | ret value =>
    cases value with
    | none => rfl
    | some e => simp only [run_bind, run_pure, h.evaluate]
  | expr e =>
    cases e with
    | call name args => simp only [run_bind, run_pure, run_discard, h.call]
    | _ => simp only [run_bind, run_pure, run_discard, h.evaluate]
  | block body => exact h.executeBlock body
  | stray node => rfl
  | misnamed name init node =>
    cases init with
    | none => rfl
    | some d => simp only [run_bind, run_step, run_discard, h.evaluate]
  | notBlock node => rfl

/-- A watched run is the run itself, within every budget. -/
theorem runsWithin (b : Bounds) (n : Nat) : RunsWithin b n := by
  induction n with
  | zero => exact ⟨fun _ => rfl, fun _ _ => rfl, fun _ => rfl, fun _ => rfl⟩
  | succ n ih => exact ⟨ih.evaluate_succ, ih.call_succ, ih.execute_succ, fun ss => run_sequence ih.execute ss⟩

end Nested
end Watched
end Execution
end TypedImp
