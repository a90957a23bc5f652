import TypedImp.Execution.World

/-! Running programs. A statement either lets the next one follow or returns from the call that is active.
    The nesting of blocks, statements, expressions and calls is bounded by a budget, which every one of
    them takes one from; to exceed it is an error of the program. The number of rounds of a loop is
    bounded by fuel, which stands for nothing in the language: with enough of it every run that ends
    does not depend on it. -/

namespace TypedImp
namespace Execution

/-- How a statement ends: the next one follows, or the active call returns. --/
inductive Flow where
  | normal
  | returning (value : Option Value)
  deriving BEq, Inhabited, Repr

/-- The bounds of a run: how many calls may be active, and how many rounds a loop may take. A bound below
    zero allows no call, as zero does. --/
structure Bounds where
  calls : Int
  rounds : Nat
  deriving Repr

/-- How deep a run may nest at all. It asks the machine for a nesting of twenty for every call that may be
    active, and for a thousand more. The machine has a limit already when the run begins, for which 15000
    stands here; this limit is raised where it is too low, and never lowered. --/
def Bounds.budget (b : Bounds) : Nat := max 15000 (20 * b.calls + 1000).toNat

/-- Does the machine grant the nesting? It counts it in a signed number of 32 bits. --/
def Bounds.isGranted (b : Bounds) : Bool := b.budget < 0x80000000

/-! ### Steps of their own -/

/-- Runs statements one after the other until one returns. --/
def sequence (run : Stmt → Run Flow) : List Stmt → Run Flow
  | [] => return .normal
  | s :: ss => do
    match ← run s with
    | .normal => sequence run ss
    | .returning v => return .returning v

/-- Runs the body and then the step as long as the condition holds. --/
def repeatWhile (condition : Run Bool) (body : Run Flow) (step : Run Unit) :
    Nat → World → EStateM.Result Stop World Flow
  | 0, w => .error .outOfFuel w
  | rounds + 1, w =>
    match condition w with
    | .error e w => .error e w
    | .ok false w => .ok .normal w
    | .ok true w =>
      match body w with
      | .error e w => .error e w
      | .ok (.returning v) w => .ok (.returning v) w
      | .ok .normal w =>
        match step w with
        | .error e w => .error e w
        | .ok () w => repeatWhile condition body step rounds w

def declareVariable (name : String) (ty : Ty) (value : Option Value) : Run Unit := do
  modify fun w => { w with store := w.store.declare name ty value }
  Run.record (.declare name ty value)

def assignVariable (name : String) (v : Value) : Run Unit := do
  Run.setStore (← Run.ask fun s => s.set name v)

def printValue (v : Value) : Run Unit :=
  if v.isTooLong then Run.fail .tooLongToShow else modify fun w => w.write (v.text ++ "\n")

/-- Asks for a value of a variable by its name, and reads it from a line of the input. --/
def readVariable (name : String) : Run Unit := do
  let b ← Run.ask fun s => s.lookup name
  modify fun w => w.write (name ++ " = ")
  match (← get).readLine? with
  | none => Run.fail .endOfInput
  | some (line, w) =>
    set w
    match Value.read b.ty line with
    | .error e => Run.fail (.invalidInput name e)
    | .ok v => modify fun w => { w with store := w.store.declare name b.ty (some v) }

def asCondition (construct : Construct) (v : Value) : Run Bool := do
  match v.truth? with
  | some b =>
    Run.record (.condition construct b)
    return b
  | none => Run.fail (.conditionNotBool construct v.ty)

/-- An operand of an operator of logic. --/
def asBool (op : BinaryOp) (v : Value) : Run Bool :=
  match v.truth? with
  | some b => pure b
  | none => Run.fail (.notBoolOperand op v.ty)

/-- Does the left operand of an operator decide alone, whatever the right one is? --/
def decidesAlone (op : BinaryOp) (left : Bool) : Bool :=
  match op with
  | .and => !left
  | .or => left
  | _ => false

/-- The frame of a call: arguments are run one after the other, each for its parameter, the first of
    which has the given number. --/
def bindArguments (run : Expr → Run Value) (name : String) :
    Nat → List Param → List Expr → Run (List (String × Binding))
  | index, p :: params, e :: args => do
    let v ← Run.require (← run e) p.ty (.badArgument index name p.ty)
    let rest ← bindArguments run name (index + 1) params args
    return (p.name, ⟨p.ty, some v⟩) :: rest
  | _, _, _ => return []

/-- Fails for the first argument whose text would be no text; the first of them has the given number. --/
def requireTexts : Nat → List Value → Run Unit
  | _, [] => return ()
  | index, v :: vs =>
    match v.notText? with
    | some payload => Run.fail (.operation (.json (.notText index payload)))
    | none => requireTexts (index + 1) vs

/-- Reports a call with the texts of its arguments. --/
def reportCall (name : String) (args : List Value) : Run Unit := do
  requireTexts 0 args
  Run.record (.call name args)

/-- What a call gives when its body has ended. --/
def resultOf (f : Function) (flow : Flow) : Run (Option Value) := do
  if f.result = .void then
    match flow with
    | .returning (some _) => Run.fail (.voidReturned f.name)
    | _ => return none
  else
    match flow with
    | .returning (some v) => some <$> Run.require v f.result (.badReturn f.name f.result)
    | _ => Run.fail (.missingReturn f.name f.result)

/-! ### The interpreter -/

mutual
def evaluate (b : Bounds) : Nat → Expr → Run Value
  | 0, _ => Run.fail .stackExhausted
  | n + 1, e =>
    match e with
    | .literal v => pure v
    | .var name => Run.ask fun s => s.get name
    | .unary op operand => do Run.operate (Value.unary op (← evaluate b n operand))
    | .binary left op right => do
      let l ← evaluate b n left
      if op.family = .logical then
        let decided ← asBool op l
        if decidesAlone op decided then return l
        let r ← evaluate b n right
        discard (asBool op r)
        return r
      else
        let r ← evaluate b n right
        Run.operate (Value.binary op l r)
    | .call name args => do
      match ← call b n name args with
      | some v => return v
      | none => Run.fail (.noResult name)
    | .stray node => Run.fail (.strayExpression node)
    | .misnamed name _ => Run.fail (.misnamed name)

/-- Calls a function. The bound on calls counts before the arguments are run, which happens in the frame
    of the caller. --/
def call (b : Bounds) : Nat → String → List Expr → Run (Option Value)
  | 0, _, _ => Run.fail .stackExhausted
  | n + 1, name, args => do
    let w ← get
    match w.functions.get? name with
    | none => Run.fail (.undefinedFunction name)
    | some f =>
      if args.length ≠ f.params.length then Run.fail (.wrongArity f.name f.params.length args.length)
      else if b.calls ≤ w.store.depth then Run.fail (.depthExceeded b.calls f.name)
      else
        let frame := Assoc.ofList (← bindArguments (evaluate b n) f.name 1 f.params args)
        reportCall f.name (frame.filterMap fun e => e.2.value)
        let flow ← Run.inFrame frame (executeBlock b n f.body)
        resultOf f flow

def execute (b : Bounds) : Nat → Stmt → Run Flow
  | 0, _ => Run.fail .stackExhausted
  | n + 1, s =>
    match s with
    | .varDecl name ty init => do
      match init with
      | none => declareVariable name ty none
      | some e =>
        let v ← Run.require (← evaluate b n e) ty (.badInitializer name ty)
        declareVariable name ty (some v)
      return .normal
    | .assign name value => do
      let target ← Run.ask fun s => s.assignable name
      let v ← Run.widen (← evaluate b n value) target.ty
      assignVariable name v
      return .normal
    | .print e => do
      printValue (← evaluate b n e)
      return .normal
    | .input name => do
      readVariable name
      return .normal
    | .ifThen cond body => do
      if ← asCondition .ifStatement (← evaluate b n cond) then executeBlock b n body
      else return .normal
    | .ifElse cond yes no => do
      if ← asCondition .ifStatement (← evaluate b n cond) then executeBlock b n yes
      else executeBlock b n no
    | .whileLoop cond body =>
      repeatWhile (evaluate b n cond >>= asCondition .whileLoop) (executeBlock b n body) (pure ()) b.rounds
    | .forLoop init cond step body => do
      discard (execute b n init)
      repeatWhile (evaluate b n cond >>= asCondition .forLoop) (executeBlock b n body)
        (discard (execute b n step)) b.rounds
    | .function name _ _ _ => Run.fail (.functionNotAtTop name)
    | .ret none => return .returning none
    | .ret (some e) => do return .returning (some (← evaluate b n e))
    | .expr e => do
      match e with
      | .call name args => discard (call b n name args)
      | e => discard (evaluate b n e)
      return .normal
    | .block body => executeBlock b n body
    | .stray node => Run.fail (.strayStatement node)
    | .misnamed name init _ => do
      match init with
      | none => pure ()
      | some (ty, e) => discard (Run.require (← evaluate b n e) ty (.badInitializer name.asText ty))
      Run.fail (.misnamed name)
    | .notBlock node => Run.fail (.notABlock node)

def executeBlock (b : Bounds) : Nat → List Stmt → Run Flow
  | 0, _ => Run.fail .stackExhausted
  | n + 1, body => sequence (execute b n) body
end

/-- Calls what an expression calls. Only a call has arguments, but an identifier has a name, too. --/
def callOf (b : Bounds) (e : Expr) : Run (Option Value) := do
  match e with
  | .call name args => call b b.budget name args
  | .var name =>
    if (← get).functions.has name then Run.fail (.notACall "Identifier" "args")
    else Run.fail (.undefinedFunction name)
  | .literal _ => Run.fail (.notACall "Literal" "name")
  | .unary .. => Run.fail (.notACall "UnaryExpr" "name")
  | .binary .. => Run.fail (.notACall "BinaryExpr" "name")
  | .stray node => Run.fail (.notACall (Node.kindOf node) "name")
  | .misnamed name _ => Run.fail (.misnamed name)

/-! ### Programs -/

def defineFunctions (fs : List Function) : Run Unit := modify fun w => fs.foldl World.define w

/-- Runs a program: first its functions are defined, all of them, and then the other statements of the
    top level run. A return at the top level ends the program. --/
def executeProgram (b : Bounds) (p : Program) : Run Unit := do
  defineFunctions p.functions
  discard (executeBlock b b.budget p.actions)

/-- Runs a program on a machine that has to grant the nesting, for which it is asked when the functions are
    defined. --/
def runProgram (b : Bounds) (p : Program) : Run Unit :=
  if b.isGranted then executeProgram b p
  else do
    defineFunctions p.functions
    Run.fail .nestingRefused

/-- What a run answers, and the world that it leaves. --/
structure Outcome (α : Type) where
  answer : Except Stop α
  world : World

def Run.run {α : Type} (r : Run α) (w : World) : Outcome α :=
  match r w with
  | .ok a w => ⟨.ok a, w⟩
  | .error e w => ⟨.error e, w⟩

end Execution
end TypedImp
