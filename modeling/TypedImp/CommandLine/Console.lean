import TypedImp.Session

/-! What a command writes: its output, its messages, a log of its progress, and files. -/

namespace TypedImp
namespace CommandLine

inductive Level where
  | debug
  | info
  deriving DecidableEq, Inhabited, Repr

def Level.name : Level → String
  | debug => "DEBUG"
  | info => "INFO"

/-- The parts of the program that report progress. --/
inductive Component where
  | main
  | lexer
  | parser
  | grammar
  | checker
  | interpreter
  deriving DecidableEq, Inhabited, Repr

def Component.name : Component → String
  | main => "petrel.__main__"
  | lexer => "petrel.lexer"
  | parser => "petrel.parser"
  | grammar => "petrel.grammar"
  | checker => "petrel.semantic"
  | interpreter => "petrel.interpreter"

structure Record where
  level : Level
  component : Component
  message : String
  deriving DecidableEq, Inhabited, Repr

def Record.line (r : Record) : String := r.level.name ++ " " ++ r.component.name ++ ": " ++ r.message ++ "\n"

/-- What is written so far. The files are written under their paths, a later text in place of an
    earlier one. --/
structure Console where
  verbosity : Nat
  output : String
  messages : String
  log : String
  files : Assoc String
  deriving Inhabited, Repr

namespace Console

/-- The file that takes the log. --/
def logFile : String := "debug.txt"

def isLogging (c : Console) : Bool := 2 ≤ c.verbosity

def start (verbosity : Nat) : Console := ⟨verbosity, "", "", "", []⟩

/-- The files that are written; the one with the log is, as soon as there is a log. --/
def written (c : Console) : Assoc String := if c.isLogging then c.files.insert logFile c.log else c.files

def print (c : Console) (text : String) : Console := { c with output := c.output ++ text }

def complain (c : Console) (text : String) : Console := { c with messages := c.messages ++ text }

def write (c : Console) (path text : String) : Console := { c with files := c.files.insert path text }

/-- A record goes to the log, and one that is no detail also to the messages, if the verbosity asks
    for it. --/
def record (c : Console) (r : Record) : Console :=
  let c := if c.isLogging then { c with log := c.log ++ r.line } else c
  if 1 ≤ c.verbosity && r.level = .info then c.complain r.line else c

def recordAll (c : Console) (rs : List Record) : Console := rs.foldl record c

end Console
end CommandLine
end TypedImp
