import TypedImp.Parser.Statement
import TypedImp.Grammar.Parse

/-! The two parsers by name. -/

namespace TypedImp

inductive FrontEnd where
  /-- Reads tokens by a procedure for each construct. --/
  | descent
  /-- Runs the automaton of the grammar. --/
  | grammar
  deriving DecidableEq, Inhabited, Repr

namespace FrontEnd

def name : FrontEnd → String
  | descent => "descent"
  | grammar => "grammar"

/-- In the order of their names. --/
def all : List FrontEnd := [descent, grammar]

def ofName? (name : String) : Option FrontEnd := all.find? fun f => f.name == name

/-- The message for a name of no front end. --/
def unknownMessage (name : String) : String :=
  "unknown front-end " ++ Text.quoted name ++ ", expected one of [" ++
    ", ".intercalate (all.map fun f => Text.quoted f.name) ++ "]"

def parse : FrontEnd → String → Except ParseError Program
  | descent => Program.parse
  | grammar => Grammar.programOf

end FrontEnd
end TypedImp
