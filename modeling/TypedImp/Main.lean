import TypedImp.CommandLine.Command

/-! The command line. The command is a function of its input; where the input ends too early the command
    runs again with one line more, and only what is new is shown. -/

namespace TypedImp
namespace CommandLine

/-- What is under a path: the octets of a file, or why there are none. --/
def readPath (path : String) : IO (Except FileError (List Nat)) := do
  try
    return .ok ((← IO.FS.readBinFile path).toList.map UInt8.toNat)
  catch _ =>
    let place := (← IO.currentDir) / path
    if Path.isTooLong path then return .error .tooLong
    else if ← place.isDir then return .error .isFolder
    else return .error .absent

/-- The file that the arguments ask for. --/
def readSource (args : List String) : IO (String → Except FileError (List Nat)) := do
  match readArguments args with
  | .ok (.options o) =>
    match Command.sourcePath? o with
    | none => return fun _ => .error .absent
    | some path =>
      let found ← readPath path
      return fun p => if p = path then found else .error .absent
  | _ => return fun _ => .error .absent

def isWaiting : Exit → Bool
  | .fault (.running .endOfInput) => true
  | _ => false

/-- Shows what is new of a text of which some characters are shown already. --/
def showNew (stream : IO.FS.Stream) (text : String) (shown : Nat) : IO Unit := do
  stream.putStr (text.drop shown).toString
  stream.flush

/-- Runs the command with ever more input until it needs none or none is left. --/
partial def converse (s : Surroundings) (args : List String) (shown messagesShown : Nat) : IO Result := do
  let r := runCommand s args
  showNew (← IO.getStdout) r.console.output shown
  showNew (← IO.getStderr) r.console.messages messagesShown
  if isWaiting r.exit then
    let line ← (← IO.getStdin).getLine
    if line.isEmpty then return r
    converse { s with input := s.input ++ line } args r.console.output.length r.console.messages.length
  else return r

def exitCode (e : Exit) : IO UInt32 := do
  match e, e.message? with
  | .code n, _ => return n.toUInt32
  | _, some message =>
    IO.eprintln message
    return 1
  | _, none => return 1

end CommandLine
end TypedImp

open TypedImp CommandLine in
def main (args : List String) : IO UInt32 := do
  let file ← readSource args
  let r ← converse ⟨file, ""⟩ args 0 0
  for (path, text) in r.console.written do
    IO.FS.writeFile path text
  exitCode r.exit
