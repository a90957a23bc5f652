import TypedImp.Execution.Error

/-! What a running program reads and changes: its variables and functions, the input that is left, and the
    output so far. -/

namespace TypedImp
namespace Execution

/-- What a run reports about its progress. --/
inductive Event where
  | defineFunction (name : String)
  | declare (name : String) (ty : Ty) (value : Option Value)
  | condition (construct : Construct) (value : Bool)
  | call (name : String) (args : List Value)
  deriving Repr

namespace Event

def text : Event → String
  | defineFunction name => "define function " ++ name
  | declare name ty value => "declare " ++ name ++ ": " ++ ty.name ++ " = " ++ value.elim "unassigned" Value.text
  | condition construct value => construct.word ++ " condition -> " ++ (Value.bool value).text
  | call name args => "call " ++ name ++ "(" ++ ", ".intercalate (args.map Value.text) ++ ")"

end Event

/-- The events are kept only where they are asked for, the latest first. --/
structure World where
  store : Store
  functions : Assoc Function
  input : List Char
  output : String
  tracing : Bool
  events : List Event

namespace World

/-- The world of a program that has not begun. --/
def start (input : String) (tracing : Bool) : World := ⟨Store.empty, [], input.toList, "", tracing, []⟩

def write (w : World) (text : String) : World := { w with output := w.output ++ text }

def record (w : World) (e : Event) : World :=
  if w.tracing then { w with events := e :: w.events } else w

def define (w : World) (f : Function) : World :=
  { w with functions := w.functions.insert f.name f }.record (.defineFunction f.name)

/-- The next line of the input without its end, unless nothing is left. --/
def readLine? (w : World) : Option (String × World) :=
  if w.input.isEmpty then none
  else
    let line := w.input.takeWhile (· ≠ '\n')
    some (String.ofList line, { w with input := w.input.drop (line.length + 1) })

end World

/-- Why a run has no result: it failed, or a loop went on for longer than it was given. --/
inductive Stop where
  | failed (e : Error)
  | outOfFuel
  deriving BEq, Inhabited, Repr

/-- A run that needs and changes the world. --/
abbrev Run (α : Type) := EStateM Stop World α

namespace Run

def fail {α : Type} (e : Error) : Run α := throw (.failed e)

def record (e : Event) : Run Unit := modify fun w => w.record e

def setStore (s : Store) : Run Unit := modify fun w => { w with store := s }

/-- What the store answers. --/
def ask {α : Type} (question : Store → Except StoreError α) : Run α := do
  match question (← get).store with
  | .ok a => return a
  | .error e => fail (.store e)

def operate (r : Except OperationError Value) : Run Value :=
  match r with
  | .ok v => pure v
  | .error e => fail (.operation e)

/-- The value where a type is expected. --/
def widen (v : Value) (ty : Ty) : Run Value :=
  match v.widen ty with
  | .ok v => pure v
  | .error e => fail (.operation (.json (.number e)))

/-- The value where a type is required. --/
def require (v : Value) (ty : Ty) (otherwise : Ty → Error) : Run Value := do
  let v ← widen v ty
  if v.ty = ty then return v else fail (otherwise v.ty)

/-- A run with a frame of its own, which is gone afterwards in any case. --/
def inFrame {α : Type} (frame : Frame) (run : Run α) : Run α := fun w =>
  match run { w with store := w.store.push frame } with
  | .ok a w => .ok a { w with store := w.store.dropFrame }
  | .error e w => .error e { w with store := w.store.dropFrame }

end Run
end Execution
end TypedImp
