import TypedImp.CommandLine.Arguments

/-! The texts about the usage of the command line. -/

namespace TypedImp
namespace CommandLine

def programName : String := "petrel"

def usage : String :=
  "usage: petrel [-h] [-v] [--parser \x7bdescent,grammar\x7d] [--check]\n" ++
  "              [--emit-ast PETREL_FILE | --ast AST_JSON_FILE]\n" ++
  "              [program]\n"

/-- The column in which the explanations begin. --/
def helpColumn : Nat := 24

def spaces (n : Nat) : String := String.ofList (List.replicate n ' ')

/-- An item with its explanation, which begins on a line of its own if the item is too long. --/
def helpRow (item explanation : String) : String :=
  let item := "  " ++ item
  let filler :=
    if item.length + 2 ≤ helpColumn then spaces (helpColumn - item.length) else "\n" ++ spaces helpColumn
  item ++ filler ++ explanation ++ "\n"

/-- What a switch is called in the list of options, and what it does. --/
def Switch.explained : Switch → String × String
  | help => ("-h, --help", "show this help message and exit")
  | verbose => ("-v", "increase logging verbosity (can be repeated)")
  | parser =>
    ("--parser \x7b" ++ ",".intercalate (FrontEnd.all.map FrontEnd.name) ++ "\x7d",
      "front-end used to parse source files")
  | check => ("--check", "stop after semantic analysis")
  | emitAst => ("--emit-ast PETREL_FILE", "emit AST JSON for the given file")
  | ast => ("--ast AST_JSON_FILE", "execute AST from a JSON file")

def helpText : String :=
  usage ++ "\nPetrel language interpreter\n\npositional arguments:\n" ++
    helpRow "program" "Petrel program file to execute" ++ "\noptions:\n" ++
    "".intercalate (Switch.all.map fun s => helpRow s.explained.1 s.explained.2)

/-- What a faulty usage is told. --/
def UsageError.report (e : UsageError) : String :=
  usage ++ programName ++ ": error: " ++ e.message ++ "\n"

end CommandLine
end TypedImp
