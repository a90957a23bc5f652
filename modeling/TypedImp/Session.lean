import TypedImp.Execution.Interpreter
import TypedImp.FrontEnd
import TypedImp.Program.Tree
import TypedImp.Text.Newline
import TypedImp.Typing.Check

/-! From a text to a finished run: the text is read as a program, the program is checked, and it is run. -/

namespace TypedImp

/-- Why there is no finished run. --/
inductive Failure where
  | reading (text : String) (e : Json.ReadError)
  | loading (e : LoadError)
  | parsing (e : ParseError)
  | checking (e : Typing.Error)
  | running (e : Execution.Error)
  | outOfFuel

namespace Failure

/-- What the user is told about a program that is wrong. There is nothing to tell about the failures
    that are none of the program's errors. --/
def diagnostic? : Failure → Option Diagnostic
  | loading e => e.complaint?.map fun m => ⟨.parsing, m, none⟩
  | parsing e => e.diagnostic?
  | checking e => e.diagnostic?
  | running e => e.diagnostic?
  | reading .. | outOfFuel => none

def message (f : Failure) : String :=
  match f with
  | reading text e => e.message text
  | loading e => e.message
  | parsing e => e.message
  | checking e => e.message
  | running e => e.message
  | outOfFuel => "a loop ran out of fuel"

def ofStop : Execution.Stop → Failure
  | .failed e => running e
  | .outOfFuel => outOfFuel

end Failure

namespace Session

/-! ### Programs from texts -/

def parse (f : FrontEnd) (text : String) : Except Failure Program := (f.parse text).mapError .parsing

/-- The tree that an interchange text holds. --/
def loadTree (text : String) : Except Failure (Option Node) := do
  let v ← (Json.read text).mapError (.reading text)
  (Node.ofJson v).mapError .loading

/-- The program that an interchange text holds. --/
def load (text : String) : Except Failure Program := Program.ofTree <$> loadTree text

/-- The text of a tree on one line. --/
def emit (tree : Option Node) : String := (tree.elim .null Node.toJson : Json).compact

/-! ### Runs -/

open Execution in
def execute (b : Bounds) (p : Program) (w : World) : Except Failure Unit × World :=
  let r := (runProgram b p).run w
  (r.answer.mapError .ofStop, r.world)

/-- Checks a program and runs it if it passes. --/
def checkAndExecute (b : Execution.Bounds) (p : Program) (w : Execution.World) :
    Except Failure Unit × Execution.World :=
  match (Typing.check p).answer with
  | .error e => (.error (.checking e), w)
  | .ok () => execute b p w

/-- Parses, checks and runs a text. --/
def runText (f : FrontEnd) (b : Execution.Bounds) (text : String) (w : Execution.World) :
    Except Failure Unit × Execution.World :=
  match parse f text with
  | .error e => (.error e, w)
  | .ok p => checkAndExecute b p w

/-- The text of a file, in which lines may end in any way. --/
def fileText (text : String) : String := String.ofList (Text.unifyNewlines text.toList)

end Session
end TypedImp
