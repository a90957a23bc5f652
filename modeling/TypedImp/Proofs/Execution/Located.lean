import TypedImp.Proofs.Execution.Moments
import TypedImp.Proofs.Typing.Homes

/-! Runs that know where they are. A located run does what a run does, and when it stops it says where: what the
    names stand for at that place of the program, and how many calls are active. The interpreter is written here once
    more over located runs, with the context of each place handed on as the typing rules hand it on; without the
    places a located run is the run itself. -/

namespace TypedImp

namespace Execution
open Typing (Context)

/-- Why a run has stopped, and where: what the names stand for there, and how many calls are active. -/
structure Blame where
  stop : Stop
  context : Context
  depth : Nat

abbrev Located (α : Type) := EStateM Blame World α

namespace Located
variable {α β : Type}

/-- The run without the places. -/
def run (r : Located α) : Run α := fun w =>
  match r w with
  | .ok a w' => .ok a w'
  | .error e w' => .error e.stop w'

/-- A run as one step at a place. -/
def step (Γ : Context) (r : Run α) : Located α := fun w =>
  match r w with
  | .ok a w' => .ok a w'
  | .error e w' => .error ⟨e, Γ, w.store.depth⟩ w'

/-- A run with a frame of its own. -/
def inFrame (frame : Frame) (r : Located α) : Located α := fun w =>
  match r { w with store := w.store.push frame } with
  | .ok a w => .ok a { w with store := w.store.dropFrame }
  | .error e w => .error e { w with store := w.store.dropFrame }

/-! ### Loops and arguments -/

/-- Behind a statement what it declares is visible. -/
def sequence (run : Context → Stmt → Located Flow) : Context → List Stmt → Located Flow
  | _, [] => return .normal
  | Γ, s :: ss => do
    match ← run Γ s with
    | .normal => sequence run (Γ.after s) ss
    | .returning v => return .returning v

def repeatWhile (Γ : Context) (condition : Located Bool) (body : Located Flow) (after : Located Unit) :
    Nat → Located Flow
  | 0 => step Γ fun w => .error .outOfFuel w
  | rounds + 1 => do
    if ← condition then
      match ← body with
      | .returning v => return .returning v
      | .normal =>
        after
        repeatWhile Γ condition body after rounds
    else return .normal

def bindArguments (Γ : Context) (run : Expr → Located Value) (name : String) :
    Nat → List Param → List Expr → Located (List (String × Binding))
  | index, p :: params, e :: args => do
    let v ← run e
    let v ← step Γ (Run.require v p.ty (.badArgument index name p.ty))
    let rest ← bindArguments Γ run name (index + 1) params args
    return (p.name, ⟨p.ty, some v⟩) :: rest
  | _, _, _ => return []

/-! ### The interpreter -/

mutual
def evaluate (home : String → Context) (b : Bounds) : Nat → Context → Expr → Located Value
  | 0, Γ, _ => step Γ (Run.fail .stackExhausted)
  | n + 1, Γ, e =>
    match e with
    | .literal v => pure v
    | .var name => step Γ (Run.ask fun s => s.get name)
    | .unary op operand => do
      let v ← evaluate home b n Γ operand
      step Γ (Run.operate (Value.unary op v))
    | .binary left op right => do
      let l ← evaluate home b n Γ left
      if op.family = .logical then
        let decided ← step Γ (asBool op l)
        if decidesAlone op decided then return l
        let r ← evaluate home b n Γ right
        discard (step Γ (asBool op r))
        return r
      else
        let r ← evaluate home b n Γ right
        step Γ (Run.operate (Value.binary op l r))
    | .call name args => do
      match ← call home b n Γ name args with
      | some v => return v
      | none => step Γ (Run.fail (.noResult name))
    | .stray node => step Γ (Run.fail (.strayExpression node))
    | .misnamed name _ => step Γ (Run.fail (.misnamed name))

/-- The arguments are run where the call stands, the body where the function has its home. -/
def call (home : String → Context) (b : Bounds) : Nat → Context → String → List Expr → Located (Option Value)
  | 0, Γ, _, _ => step Γ (Run.fail .stackExhausted)
  | n + 1, Γ, name, args => do
    let f ← step Γ (Watched.callee b name args.length)
    let entries ← bindArguments Γ (evaluate home b n Γ) f.name 1 f.params args
    let frame := Assoc.ofList entries
    step Γ (reportCall f.name (frame.filterMap fun e => e.2.value))
    let flow ← inFrame frame (executeBlock home b n (home f.name) f.body)
    step Γ (resultOf f flow)

/-- The header of a `for` loop is a block of its own, around the body. -/
def execute (home : String → Context) (b : Bounds) : Nat → Context → Stmt → Located Flow
  | 0, Γ, _ => step Γ (Run.fail .stackExhausted)
  | n + 1, Γ, s =>
    match s with
    | .varDecl name ty init => do
      match init with
      | none => step Γ (declareVariable name ty none)
      | some e =>
        let v ← evaluate home b n Γ e
        let v ← step Γ (Run.require v ty (.badInitializer name ty))
        step Γ (declareVariable name ty (some v))
      return .normal
    | .assign name value => do
      let ty ← step Γ (Watched.targetType name)
      let v ← evaluate home b n Γ value
      let v ← step Γ (Run.widen v ty)
      step Γ (assignVariable name v)
      return .normal
    | .print e => do
      let v ← evaluate home b n Γ e
      step Γ (printValue v)
      return .normal
    | .input name => do
      step Γ (readVariable name)
      return .normal
    | .ifThen cond body => do
      let v ← evaluate home b n Γ cond
      if ← step Γ (asCondition .ifStatement v) then executeBlock home b n Γ.block body
      else return .normal
    | .ifElse cond yes no => do
      let v ← evaluate home b n Γ cond
      if ← step Γ (asCondition .ifStatement v) then executeBlock home b n Γ.block yes
      else executeBlock home b n Γ.block no
    | .whileLoop cond body =>
      repeatWhile Γ (evaluate home b n Γ cond >>= fun v => step Γ (asCondition .whileLoop v))
        (executeBlock home b n Γ.block body) (pure ()) b.rounds
    | .forLoop init cond step' body => do
      let Γ' := Γ.block.after init
      discard (execute home b n Γ.block init)
      repeatWhile Γ' (evaluate home b n Γ' cond >>= fun v => step Γ' (asCondition .forLoop v))
        (executeBlock home b n Γ'.block body) (discard (execute home b n Γ' step')) b.rounds
    | .function name _ _ _ => step Γ (Run.fail (.functionNotAtTop name))
    | .ret none => return .returning none
    | .ret (some e) => do
      let v ← evaluate home b n Γ e
      return .returning (some v)
    | .expr e => do
      match e with
      | .call name args => discard (call home b n Γ name args)
      | e => discard (evaluate home b n Γ e)
      return .normal
    | .block body => executeBlock home b n Γ.block body
    | .stray node => step Γ (Run.fail (.strayStatement node))
    | .misnamed name init _ => do
      match init with
      | none => pure ()
      | some (ty, e) =>
        let v ← evaluate home b n Γ e
        discard (step Γ (Run.require v ty (.badInitializer name.asText ty)))
      step Γ (Run.fail (.misnamed name))
    | .notBlock node => step Γ (Run.fail (.notABlock node))

/-- Statements where their block begins. -/
def executeBlock (home : String → Context) (b : Bounds) : Nat → Context → List Stmt → Located Flow
  | 0, Γ, _ => step Γ (Run.fail .stackExhausted)
  | n + 1, Γ, body => sequence (execute home b n) Γ body
end

def runProgram (b : Bounds) (p : Program) : Located Unit := do
  step p.context (defineFunctions p.functions)
  if b.isGranted then discard (executeBlock p.home b b.budget p.context p.actions)
  else step p.context (Run.fail .nestingRefused)

/-! ### Without the places -/

@[simp] theorem run_pure (a : α) : (pure a : Located α).run = pure a := rfl

@[simp] theorem run_step (Γ : Context) (r : Run α) : (step Γ r).run = r := by
  funext w
  unfold run step
  cases r w <;> rfl

@[simp] theorem run_bind (r : Located α) (k : α → Located β) : (r >>= k).run = r.run >>= fun a => (k a).run := by
  funext w
  cases hr : r w with
  | ok a w' =>
    have hrun : r.run w = .ok a w' := by rw [run, hr]
    rw [State.bind_of_ok hrun, run, State.bind_of_ok hr, run]
  | error e w' =>
    have hrun : r.run w = .error e.stop w' := by rw [run, hr]
    rw [State.bind_of_error hrun, run, State.bind_of_error hr]

@[simp] theorem run_inFrame (frame : Frame) (r : Located α) : (inFrame frame r).run = Run.inFrame frame r.run := by
  funext w
  simp only [run, inFrame, Run.inFrame]
  cases r { w with store := w.store.push frame } <;> rfl

@[simp] theorem run_discard (r : Located α) : (discard r : Located PUnit).run = discard r.run := run_bind r _

@[simp] theorem run_ite {c : Prop} [Decidable c] (r s : Located α) :
    (if c then r else s).run = if c then r.run else s.run := apply_ite _ _ _ _

theorem run_sequence {r : Context → Stmt → Located Flow} {r' : Stmt → Run Flow} (h : ∀ Γ s, (r Γ s).run = r' s)
    (Γ : Context) (ss : List Stmt) : (sequence r Γ ss).run = Execution.sequence r' ss := by
  induction ss generalizing Γ with
  | nil => rfl
  | cons s ss ih =>
    rw [sequence, Execution.sequence, run_bind, h]
    congr 1
    funext flow
    cases flow with
    | normal => exact ih (Γ.after s)
    | returning v => rfl

theorem run_repeatWhile {Γ : Context} {condition : Located Bool} {body : Located Flow} {after : Located Unit}
    (rounds : Nat) : (repeatWhile Γ condition body after rounds).run =
      Execution.repeatWhile condition.run body.run after.run rounds := by
  induction rounds with
  | zero => rfl
  | succ rounds ih =>
    rw [repeatWhile_succ, repeatWhile, run_bind]
    congr 1
    funext holds
    rw [run_ite]
    congr 1
    rw [run_bind]
    congr 1
    funext flow
    cases flow with
    | returning v => rfl
    | normal =>
      dsimp only
      rw [run_bind, ih]

theorem run_bindArguments {Γ : Context} {r : Expr → Located Value} {r' : Expr → Run Value} (h : ∀ e, (r e).run = r' e)
    (name : String) (index : Nat) (params : List Param) (args : List Expr) :
    (bindArguments Γ r name index params args).run = Execution.bindArguments r' name index params args := by
  induction params generalizing index args with
  | nil => rfl
  | cons p params ih =>
    cases args with
    | nil => rfl
    | cons e args =>
      simp only [bindArguments, Execution.bindArguments, run_bind, run_step, run_pure, h, ih]

/-- Places do not change what expressions, calls, statements and blocks do within a budget. -/
structure RunsWithin (home : String → Context) (b : Bounds) (n : Nat) : Prop where
  evaluate : ∀ Γ e, (evaluate home b n Γ e).run = Execution.evaluate b n e
  call : ∀ Γ name args, (call home b n Γ name args).run = Execution.call b n name args
  execute : ∀ Γ s, (execute home b n Γ s).run = Execution.execute b n s
  executeBlock : ∀ Γ ss, (executeBlock home b n Γ ss).run = Execution.executeBlock b n ss

section Nested
variable {home : String → Context} {b : Bounds} {n : Nat}

theorem RunsWithin.evaluate_succ (h : RunsWithin home b n) (Γ : Context) (e : Expr) :
    (Located.evaluate home b (n + 1) Γ e).run = Execution.evaluate b (n + 1) e := by
  unfold Located.evaluate Execution.evaluate
  cases e with
  | literal v => rfl
  | var name => exact run_step Γ _
  | unary op operand => simp only [run_bind, run_step, h.evaluate]
  | binary left op right =>
    simp only [run_bind, run_step, run_pure, run_discard, run_ite, h.evaluate]
  | call name args =>
    simp only [run_bind, h.call]
    congr 1
    funext result
    cases result <;> rfl
  | stray node => rfl
  | misnamed name node => rfl

/-- The call of a watched run is the same, but for what it watches. -/
theorem RunsWithin.call_succ (h : RunsWithin home b n) (Γ : Context) (name : String) (args : List Expr) :
    (Located.call home b (n + 1) Γ name args).run = Execution.call b (n + 1) name args := by
  rw [← (Watched.runsWithin b (n + 1)).call]
  unfold Located.call Watched.call
  simp only [run_bind, run_step, run_inFrame, run_bindArguments (h.evaluate Γ), h.executeBlock, Watched.run_giving,
    Watched.run_bind, Watched.run_step, Watched.run_inFrame,
    Watched.run_bindArguments (Watched.runsWithin b n).evaluate, (Watched.runsWithin b n).executeBlock]

theorem RunsWithin.condition (h : RunsWithin home b n) (Γ : Context) (construct : Construct) (cond : Expr) :
    (Located.evaluate home b n Γ cond >>= fun v => step Γ (asCondition construct v)).run =
      Execution.evaluate b n cond >>= asCondition construct := by
  simp only [run_bind, run_step, h.evaluate]

theorem RunsWithin.execute_succ (h : RunsWithin home b n) (Γ : Context) (s : Stmt) :
    (Located.execute home b (n + 1) Γ s).run = Execution.execute b (n + 1) s := by
  unfold Located.execute Execution.execute
  cases s with
  | varDecl name ty init =>
    cases init with
    | none => simp only [run_bind, run_step, run_pure]
    | some e => simp only [run_bind, run_step, run_pure, h.evaluate]
  | assign name value =>
    simp only [run_bind, run_step, run_pure, h.evaluate, Watched.targetType, bind_assoc, pure_bind]
  | print e => simp only [run_bind, run_step, run_pure, h.evaluate]
  | input name => simp only [run_bind, run_step, run_pure]
  | ifThen cond body =>
    simp only [run_bind, run_step, run_pure, run_ite, h.evaluate, h.executeBlock]
  | ifElse cond yes no => simp only [run_bind, run_step, run_ite, h.evaluate, h.executeBlock]
  | whileLoop cond body =>
    simp only [run_repeatWhile, h.condition, h.executeBlock]
    rfl
  | forLoop init cond after body =>
    simp only [run_bind, run_discard, run_repeatWhile, h.condition, h.execute, h.executeBlock]
  | function name params result body => rfl
  | ret value =>
    cases value with
    | none => rfl
    | some e => simp only [run_bind, run_pure, h.evaluate]
  | expr e =>
    cases e with
    | call name args => simp only [run_bind, run_pure, run_discard, h.call]
    | _ => simp only [run_bind, run_pure, run_discard, h.evaluate]
  | block body => exact h.executeBlock Γ.block body
  | stray node => rfl
  | misnamed name init node =>
    cases init with
    | none => rfl
    | some d => simp only [run_bind, run_step, run_discard, h.evaluate]
  | notBlock node => rfl

/-- A located run is the run itself, within every budget. -/
theorem runsWithin (home : String → Context) (b : Bounds) (n : Nat) : RunsWithin home b n := by
  induction n with
  | zero => exact ⟨fun _ _ => rfl, fun _ _ _ => rfl, fun _ _ => rfl, fun _ _ => rfl⟩
  | succ n ih => exact ⟨ih.evaluate_succ, ih.call_succ, ih.execute_succ, fun Γ ss => run_sequence ih.execute Γ ss⟩

theorem run_runProgram (b : Bounds) (p : Program) : (runProgram b p).run = Execution.runProgram b p := by
  unfold runProgram Execution.runProgram Execution.executeProgram
  rw [run_bind, run_step]
  split
  · rw [run_discard, (runsWithin p.home b b.budget).executeBlock]
  · rw [run_step]

end Nested
end Located
end Execution
end TypedImp
