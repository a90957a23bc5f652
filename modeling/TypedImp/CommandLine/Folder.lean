import TypedImp.CommandLine.Path
import TypedImp.Text.Quoted

/-! What paths lead to. A command works in a folder that holds some files, each under a path of its own;
    their paths tell which folders are inside it. Of all that is outside only the folders around it are
    known. -/

namespace TypedImp
namespace CommandLine

/-- Why there is no file to read or write under a path. --/
inductive FileError where
  | absent
  | isFolder
  | tooLong
  deriving DecidableEq, Inhabited, Repr

/-- What the system says about a path. --/
def FileError.message (path : String) : FileError → String
  | absent => "[Errno 2] No such file or directory: " ++ Text.quoted path
  | isFolder => "[Errno 21] Is a directory: " ++ Text.quoted path
  | tooLong => "[Errno 36] File name too long: " ++ Text.quoted path

/-- The octets of files by the steps of their paths. --/
structure Folder where
  files : List (List String × List Nat)

namespace Folder

def ofFiles (files : List (String × List Nat)) : Folder := ⟨files.map fun f => (Path.steps f.1, f.2)⟩

/-- Where a walk along a path has come to: a folder around the working one, or a place in it. --/
inductive Place where
  | around
  | inside (steps : List String)
  deriving DecidableEq, Inhabited, Repr

/-- Do the steps lead to a folder: the working one, or one that a file's path passes through? --/
def isFolder (f : Folder) (steps : List String) : Bool :=
  steps.isEmpty || f.files.any fun e => steps.isPrefixOf e.1 && steps.length < e.1.length

def isThere (f : Folder) (steps : List String) : Bool := f.isFolder steps || f.files.any fun e => e.1 == steps

/-- The folder around a place. --/
def Place.parent : Place → Place
  | around | inside [] => around
  | inside steps => inside steps.dropLast

/-- Goes one step on from a place, which must be a folder. --/
def next (f : Folder) (p : Place) (step : String) : Except FileError Place :=
  let isInFolder := match p with
    | .around => true
    | .inside steps => f.isFolder steps
  if !isInFolder then .error .absent
  else if step = ".." then .ok p.parent
  else if Path.isStepTooLong step then .error .tooLong
  else
    match p with
    | .around => .error .absent
    | .inside steps =>
      let steps := steps ++ [step]
      if f.isThere steps then .ok (.inside steps) else .error .absent

/-- The place that a path leads to. --/
def find (f : Folder) (path : String) : Except FileError Place :=
  if Path.maxOctets < path.utf8ByteSize then .error .tooLong
  else (Path.steps path).foldlM f.next (if Path.isAbsolute path then .around else .inside [])

/-- The octets of the file that a path leads to. --/
def read (f : Folder) (path : String) : Except FileError (List Nat) := do
  match ← f.find path with
  | .around => .error .isFolder
  | .inside steps =>
    match f.files.lookup steps with
    | some octets => .ok octets
    | none => .error .isFolder

end Folder
end CommandLine
end TypedImp
