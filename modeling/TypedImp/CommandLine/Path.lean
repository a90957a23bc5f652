/-! Paths of files as text. -/

namespace TypedImp
namespace CommandLine
namespace Path

/-- The slashes in front of a path: two stay two, more count as one. --/
def root (path : List Char) : List Char :=
  match path.takeWhile (· = '/') with
  | [] => []
  | ['/', '/'] => ['/', '/']
  | _ => ['/']

/-- The steps of a path, without empty ones and steps to where it is. --/
def steps (path : String) : List String := (path.splitOn "/").filter fun s => s ≠ "" && s ≠ "."

/-- The path without empty steps and steps to where it is. --/
def normalized (path : String) : String :=
  let text := String.ofList (root path.toList) ++ "/".intercalate (steps path)
  if text.isEmpty then "." else text

def isAbsolute (path : String) : Bool := path.toList.head? = some '/'

/-! ### Limits -/

/-- The most octets that a step may have. --/
def maxStepOctets : Nat := 255

/-- The most octets that a path may have. --/
def maxOctets : Nat := 4095

def isStepTooLong (step : String) : Bool := maxStepOctets < step.utf8ByteSize

/-- Is a path too long to be a file's? --/
def isTooLong (path : String) : Bool := maxOctets < path.utf8ByteSize || (steps path).any isStepTooLong

end Path
end CommandLine
end TypedImp
