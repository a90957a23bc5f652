import TypedImp.FrontEnd

/-! Reading the arguments of the command line. Options can stand anywhere before a lone `--`. A long one
    may be cut short as long as only one begins that way, and its value may follow an equals sign. Short
    ones may share one dash. -/

namespace TypedImp
namespace CommandLine

inductive Switch where
  | help
  | verbose
  | parser
  | check
  | emitAst
  | ast
  deriving DecidableEq, Inhabited, Repr

namespace Switch

def all : List Switch := [help, verbose, parser, check, emitAst, ast]

def names : Switch → List String
  | help => ["-h", "--help"]
  | verbose => ["-v"]
  | parser => ["--parser"]
  | check => ["--check"]
  | emitAst => ["--emit-ast"]
  | ast => ["--ast"]

def takesValue : Switch → Bool
  | parser | emitAst | ast => true
  | help | verbose | check => false

/-- The switch that cannot stand beside this one. --/
def rival? : Switch → Option Switch
  | emitAst => some ast
  | ast => some emitAst
  | _ => none

def label (s : Switch) : String := "/".intercalate s.names

/-- All names of all switches, in order. --/
def allNames : List (String × Switch) := all.flatMap fun s => s.names.map fun n => (n, s)

def ofName? (name : String) : Option Switch := allNames.lookup name

end Switch

/-! ### Errors -/

inductive UsageError where
  | ambiguous (arg : String) (names : List String)
  | missingValue (s : Switch)
  | needlessValue (s : Switch) (value : String)
  | invalidChoice (s : Switch) (value : String) (choices : List String)
  | rivals (s other : Switch)
  | unrecognized (args : List String)
  deriving DecidableEq, Inhabited, Repr

namespace UsageError

def about (s : Switch) (text : String) : String := "argument " ++ s.label ++ ": " ++ text

def message : UsageError → String
  | ambiguous arg names => "ambiguous option: " ++ arg ++ " could match " ++ ", ".intercalate names
  | missingValue s => about s "expected one argument"
  | needlessValue s value => about s ("ignored explicit argument " ++ Text.quoted value)
  | invalidChoice s value choices =>
    about s ("invalid choice: " ++ Text.quoted value ++ " (choose from " ++
      ", ".intercalate (choices.map Text.quoted) ++ ")")
  | rivals s other => about s ("not allowed with argument " ++ other.label)
  | unrecognized args => "unrecognized arguments: " ++ " ".intercalate args

end UsageError

/-! ### The shapes of arguments -/

/-- An option can have a text attached: what stands behind an equals sign, or behind a short name. --/
inductive Shape where
  | plain
  | separator
  | unknown
  | option (s : Switch) (name : String) (attached : Option String)
  deriving Inhabited, Repr

/-- The text before the first equals sign, and what follows it if there is one. --/
def splitEquals (arg : String) : String × Option String :=
  let before := arg.toList.takeWhile (· ≠ '=')
  match arg.toList.drop before.length with
  | [] => (arg, none)
  | _ :: after => (String.ofList before, some (String.ofList after))

/-- The text without a newline at its very end. --/
def dropFinalNewline (cs : List Char) : List Char := if cs.getLast? = some '\n' then cs.dropLast else cs

/-- A minus sign and a decimal number, which a newline may follow. --/
def isNegativeNumber (arg : String) : Bool :=
  match dropFinalNewline arg.toList with
  | '-' :: cs =>
    let isDigit (c : Char) : Bool := (Text.digit? c).isSome
    let rest := cs.dropWhile isDigit
    match rest with
    | [] => !cs.isEmpty
    | '.' :: fraction => !fraction.isEmpty && fraction.all isDigit
    | _ => false
  | _ => false

/-- The options that an argument with two dashes can be short for. --/
def longMatches (arg : String) : List (String × Shape) :=
  let (start, value) := splitEquals arg
  (Switch.allNames.filter fun n => start.toList.isPrefixOf n.1.toList).map fun n =>
    (n.1, .option n.2 n.1 value)

/-- The options that an argument with one dash can be meant for; more letters may follow the first. --/
def shortMatches (arg : String) : List (String × Shape) :=
  let name := String.ofList (arg.toList.take 2)
  let rest := String.ofList (arg.toList.drop 2)
  Switch.allNames.filterMap fun n =>
    if n.1 = name then some (n.1, .option n.2 n.1 (some rest))
    else if arg.toList.isPrefixOf n.1.toList then some (n.1, .option n.2 n.1 none)
    else none

/-- The shape of an argument that begins with a dash and is no option's name. --/
def dashedShape (arg : String) : Except UsageError Shape :=
  let candidates := if "--".toList.isPrefixOf arg.toList then longMatches arg else shortMatches arg
  match candidates with
  | [m] => .ok m.2
  | [] => .ok (if isNegativeNumber arg || arg.toList.contains ' ' then .plain else .unknown)
  | ms => .error (.ambiguous arg (ms.map (·.1)))

def shapeOf (arg : String) : Except UsageError Shape :=
  if arg.toList.head? ≠ some '-' then .ok .plain
  else
    match Switch.ofName? arg, splitEquals arg with
    | some s, _ => .ok (.option s arg none)
    | none, (name, value) =>
      if arg = "-" then .ok .plain
      else
        match Switch.ofName? name, value with
        | some s, some v => .ok (.option s name (some v))
        | _, _ => dashedShape arg

/-- The shapes of all arguments; those behind the first separator are plain. --/
def shapes : List String → Except UsageError (List (String × Shape))
  | [] => .ok []
  | arg :: args => do
    if arg = "--" then .ok ((arg, .separator) :: args.map fun a => (a, .plain))
    else
      let s ← shapeOf arg
      .ok ((arg, s) :: (← shapes args))

/-! ### Clusters -/

/-- A switch as it is set, with its value if it takes one. A lone `--` is no value, even if it is attached:
    it leaves the switch without one. --/
structure Setting where
  switch : Switch
  value : Option String
  deriving DecidableEq, Inhabited, Repr

def Setting.attached (s : Switch) (text : String) : Setting := ⟨s, if text = "--" then none else some text⟩

/-- What one argument sets, and the switch whose value is yet to come. --/
structure Cluster where
  settings : List Setting
  waiting : Option Switch
  deriving DecidableEq, Inhabited, Repr

namespace Cluster

/-- A switch with nothing attached. --/
def single (s : Switch) : Cluster := if s.takesValue then ⟨[], some s⟩ else ⟨[⟨s, none⟩], none⟩

def cons (s : Switch) (c : Cluster) : Cluster := { c with settings := ⟨s, none⟩ :: c.settings }

/-- A short switch and the letters behind it. They are its value if it takes one, and otherwise each of
    them is a switch again. --/
def ofLetters (s : Switch) : List Char → Except UsageError Cluster
  | [] => .ok (single s)
  | c :: cs =>
    if s.takesValue then .ok ⟨[.attached s (String.ofList (c :: cs))], none⟩
    else
      match Switch.ofName? (String.ofList ['-', c]) with
      | none => .error (.needlessValue s (String.ofList (c :: cs)))
      | some t => cons s <$> ofLetters t cs

def isShort (name : String) : Bool := name.length = 2

/-- What an option of the given name sets. Only a short one shares its dash with others. --/
def ofOption (s : Switch) (name : String) : Option String → Except UsageError Cluster
  | none => .ok (single s)
  | some text =>
    if s.takesValue then .ok ⟨[.attached s text], none⟩
    else if isShort name && text ≠ "" then ofLetters s text.toList
    else .error (.needlessValue s text)

end Cluster

/-! ### Options -/

/-- What the arguments ask for. An option that was given without a value holds an empty path, or no
    front end. --/
structure Options where
  verbosity : Nat
  frontEnd : Option FrontEnd
  checkOnly : Bool
  emitAst : Option String
  ast : Option String
  file : Option String
  deriving DecidableEq, Inhabited, Repr

def Options.default : Options := ⟨0, some .descent, false, none, none, none⟩

inductive Request where
  | help
  | options (o : Options)
  deriving DecidableEq, Inhabited, Repr

namespace Options

def given (o : Options) : Switch → Bool
  | .emitAst => o.emitAst.isSome
  | .ast => o.ast.isSome
  | _ => false

/-- The front end of the given name. --/
def chosen (name : String) : Except UsageError FrontEnd :=
  match FrontEnd.ofName? name with
  | some f => .ok f
  | none => .error (.invalidChoice .parser name (FrontEnd.all.map FrontEnd.name))

/-- Sets a switch; setting the one for help ends the reading. --/
def set (o : Options) (s : Setting) : Except UsageError Request :=
  match s.switch.rival?.filter o.given with
  | some other => .error (.rivals s.switch other)
  | none =>
    match s.switch with
    | .help => .ok .help
    | .verbose => .ok (.options { o with verbosity := o.verbosity + 1 })
    | .check => .ok (.options { o with checkOnly := true })
    | .emitAst => .ok (.options { o with emitAst := some (s.value.getD "") })
    | .ast => .ok (.options { o with ast := some (s.value.getD "") })
    | .parser =>
      match s.value with
      | none => .ok (.options { o with frontEnd := none })
      | some name => do .ok (.options { o with frontEnd := some (← chosen name) })

/-- Sets one switch after the other. --/
def setAll : Options → List Setting → Except UsageError Request
  | o, [] => .ok (.options o)
  | o, s :: rest => do
    match ← o.set s with
    | .help => .ok .help
    | .options o => o.setAll rest

end Options

/-- The arguments read so far: the options, those that nothing is known about, and whether a separator
    would be a part of what was read last. --/
structure Progress where
  options : Options
  extras : List String
  atFile : Bool

/-- Reads the arguments from the left to the right. --/
def readShapes : Progress → List (String × Shape) → Except UsageError Request
  | p, [] => if p.extras.isEmpty then .ok (.options p.options) else .error (.unrecognized p.extras)
  | p, (arg, .plain) :: rest =>
    if p.options.file.isNone then
      readShapes { p with options := { p.options with file := some arg }, atFile := true } rest
    else readShapes { p with extras := p.extras ++ [arg], atFile := false } rest
  | p, (arg, .separator) :: rest =>
    if p.options.file.isNone || p.atFile then readShapes { p with atFile := false } rest
    else readShapes { p with extras := p.extras ++ [arg] } rest
  | p, (arg, .unknown) :: rest => readShapes { p with extras := p.extras ++ [arg], atFile := false } rest
  | p, (_, .option s name attached) :: rest => do
    let c ← Cluster.ofOption s name attached
    match c.waiting, rest with
    | none, rest =>
      match ← p.options.setAll c.settings with
      | .help => .ok .help
      | .options o => readShapes { p with options := o, atFile := false } rest
    | some s, (value, .plain) :: rest =>
      match ← p.options.setAll (c.settings ++ [⟨s, some value⟩]) with
      | .help => .ok .help
      | .options o => readShapes { p with options := o, atFile := false } rest
    | some s, _ => .error (.missingValue s)

def readArguments (args : List String) : Except UsageError Request := do
  readShapes ⟨Options.default, [], false⟩ (← shapes args)

end CommandLine
end TypedImp
