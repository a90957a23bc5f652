import TypedImp.CommandLine.Console
import TypedImp.CommandLine.Folder
import TypedImp.CommandLine.Help
import TypedImp.Text.Utf8

/-! The command: it runs a program file, the tree of a program in a file, or a program of its own; or it
    writes the tree of a program to a file. -/

namespace TypedImp
namespace CommandLine

/-- The program that runs when no file is given. --/
def sampleProgram : String := "
var number: int;
print(\"Enter a number:\");
input(number);
print(\"You entered:\");
print(number);

var x: int = number;
var y: int = 20;
var z: int;
z = x + y * 2;

print(z);

if (z > 30) \x7b
    print(\"z is greater than 30\");
\x7d else \x7b
    print(\"z is less than or equal to 30\");
\x7d

var count: int = 0;
while (count < 3) \x7b
    print(count);
    count = count + 1;
\x7d
"

/-- What a command finds: the octets of files by their paths, and its input. --/
structure Surroundings where
  file : String → Except FileError (List Nat)
  input : String

/-- Why a command ends early: what is wrong is told already, or it failed in a way that it does not
    know how to tell. --/
inductive Exit where
  | code (n : Nat)
  | fault (f : Failure)
  | undecodable (e : Text.Utf8.Error)
  | unusable (path : String) (e : FileError)
  | noFrontEnd

/-- What is wrong and not told yet. --/
def Exit.message? : Exit → Option String
  | code _ => none
  | fault f => some f.message
  | undecodable e => some e.message
  | unusable path e => some (e.message path)
  | noFrontEnd => some "unhashable type: 'list'"

abbrev Command (α : Type) := EStateM Exit Console α

namespace Command

def record (r : Record) : Command Unit := modify fun c => c.record r

def info (message : String) : Command Unit := record ⟨.info, .main, message⟩

/-- Ends the command. An error of the program is told, all else is a fault. --/
def stop {α : Type} (f : Failure) : Command α :=
  match f.diagnostic? with
  | none => throw (.fault f)
  | some d => do
    modify fun c => c.complain (d.report ++ "\n")
    throw (.code 1)

def orStop {α : Type} (r : Except Failure α) : Command α :=
  match r with
  | .ok a => pure a
  | .error f => stop f

/-- The bounds of a run from the command line. --/
def bounds : Execution.Bounds := ⟨1000, Nat.pow 10 18⟩

/-! ### Reading -/

/-- The text of a file. Nothing is logged before it is read, so the log itself is still empty. --/
def readFile (s : Surroundings) (path : String) : Command String := do
  let octets := if (← get).isLogging && path = Console.logFile then .ok [] else s.file path
  match octets with
  | .error .absent =>
    modify fun c => c.complain ("Error: file " ++ path ++ " not found\n")
    throw (.code 1)
  | .error e => throw (.unusable path e)
  | .ok octets =>
    match Text.Utf8.decode octets with
    | .ok text => return Session.fileText text
    | .error e => throw (.undecodable e)

/-- What the descent parser reports about a text. --/
def descentRecords (tokens : List Token) (r : Parsed Program) : List Record :=
  let functions := r.cursor.functions.reverse.map fun f =>
    "parsed function " ++ f.1 ++ "/" ++ toString f.2
  let finished := match r.answer with
    | .ok p => ["parsed program with " ++ toString p.body.length ++ " top-level statements"]
    | .error _ => []
  ⟨.debug, .lexer, "scanned " ++ toString tokens.length ++ " tokens"⟩ ::
    (functions ++ finished).map fun m => ⟨.debug, .parser, m⟩

/-- Parses a text with a front end, without which nothing can be parsed. --/
def parse (f : Option FrontEnd) (text : String) : Command Program := do
  match f with
  | none => throw .noFrontEnd
  | some .descent =>
    let tokens := tokenize text
    let r := Program.parseTokens tokens
    modify fun c => c.recordAll (descentRecords tokens r)
    orStop (r.answer.mapError .parsing)
  | some .grammar =>
    let p ← orStop (Session.parse .grammar text)
    let n := toString p.body.length
    record ⟨.debug, .grammar, "grammar front-end parsed " ++ n ++ " top-level statements"⟩
    return p

/-- The program whose tree a file holds. A text that is no JSON is an error of the file. --/
def load (text : String) : Command Program := do
  match Session.load text with
  | .ok p => return p
  | .error (.reading _ (.refused why offset)) =>
    let (line, column) := Json.lineColumn text.toList offset
    let d : Diagnostic := ⟨.parsing, "invalid AST JSON: " ++ why.message, some ⟨line, column⟩⟩
    modify fun c => c.complain (d.report ++ "\n")
    throw (.code 1)
  | .error f => stop f

/-! ### Running -/

def check (p : Program) : Command Unit := do
  let r := Typing.check p
  modify fun c => c.recordAll (r.arena.events.reverse.map fun e => ⟨.debug, .checker, e.text⟩)
  orStop (r.answer.mapError .checking)
  info "semantic analysis passed"

def execute (s : Surroundings) (p : Program) : Command Unit := do
  let tracing := (← get).isLogging
  let (answer, w) := Session.execute bounds p (Execution.World.start s.input tracing)
  modify fun c => (c.print w.output).recordAll
    (w.events.reverse.map fun e => ⟨.debug, .interpreter, e.text⟩)
  orStop answer

def run (s : Surroundings) (o : Options) (p : Program) : Command Unit := do
  check p
  if o.checkOnly then return ()
  execute s p

/-! ### The modes -/

/-- Writes the tree of a program beside its file. --/
def emit (s : Surroundings) (o : Options) (file : String) : Command Unit := do
  let path := Path.normalized file
  let p ← parse o.frontEnd (← readFile s path)
  let target := path ++ ".ast.json"
  if Path.isTooLong target then throw (.unusable target .tooLong)
  modify fun c => c.write target (p.toNode.toJson.indented 0)
  modify fun c => c.print (target ++ "\n")

def runTree (s : Surroundings) (o : Options) (file : String) : Command Unit := do
  let p ← load (← readFile s (Path.normalized file))
  run s o p

def runFile (s : Surroundings) (o : Options) (file : String) : Command Unit := do
  let p ← parse o.frontEnd (← readFile s (Path.normalized file))
  run s o p

def runSample (s : Surroundings) (o : Options) : Command Unit := do
  info "no program file given, running the sample program"
  let p ← parse o.frontEnd sampleProgram
  run s o p

/-- The path that an option gives; an empty one counts as none. --/
def given (path : Option String) : Option String := path.filter (· ≠ "")

/-- The path of the file that a command reads first. --/
def sourcePath? (o : Options) : Option String :=
  ((given o.emitAst).or ((given o.ast).or (given o.file))).map Path.normalized

def perform (s : Surroundings) (o : Options) : Command Unit :=
  match given o.emitAst, given o.ast, given o.file with
  | some file, _, _ => emit s o file
  | none, some file, _ => runTree s o file
  | none, none, some file => runFile s o file
  | none, none, none => runSample s o

end Command

/-- How a command ends, and what it has written. --/
structure Result where
  exit : Exit
  console : Console

/-- Runs the command with the given arguments. --/
def runCommand (s : Surroundings) (args : List String) : Result :=
  match readArguments args with
  | .error e => ⟨.code 2, (Console.start 0).complain e.report⟩
  | .ok .help => ⟨.code 0, (Console.start 0).print helpText⟩
  | .ok (.options o) =>
    match Command.perform s o (Console.start o.verbosity) with
    | .ok () c => ⟨.code 0, c⟩
    | .error e c => ⟨e, c⟩

end CommandLine
end TypedImp
