import TypedImp.Node.Basic
import TypedImp.Json.Arithmetic
import TypedImp.Json.Reader
import TypedImp.Json.Printer

/-! Loose trees as interchange values. Writing gives every field in a fixed order; reading looks fields
    up by name, checks kinds, type names and literal tags, and takes all else as it is. -/

namespace TypedImp

/-- Why a value is no tree. The last two are values of a kind that no file should hold in the place. --/
inductive LoadError where
  | notAnObject (v : Json)
  | missingField (type : Json) (key : String)
  | notAList (type : Json) (key : String)
  | unknownType (name : Json)
  | unknownNode (type : Json)
  | invalidLiteral (v : Json)
  | parameterNotObject (v : Json)
  | json (e : JsonError)
  deriving BEq, Inhabited, Repr

namespace LoadError

/-- The message of an error that a reader of the file is told about. --/
def complaint? : LoadError → Option String
  | notAnObject v => some ("invalid AST object: " ++ v.shown)
  | missingField type key =>
    some ("AST node " ++ type.shown ++ " is missing field " ++ Text.quoted key)
  | notAList type key =>
    some ("field " ++ Text.quoted key ++ " of AST node " ++ type.shown ++ " must be a list")
  | unknownType name => some ("unknown type " ++ name.shown ++ " in AST")
  | unknownNode type => some ("Unknown AST node type: " ++ type.asText)
  | invalidLiteral v => some ("invalid literal value in AST: " ++ v.shown)
  | _ => none

def message (e : LoadError) : String :=
  match e.complaint? with
  | some s => s
  | none =>
    match e with
    | parameterNotObject v => "'" ++ v.kindName ++ "' object has no attribute 'get'"
    | json e => e.message
    | _ => ""

end LoadError

namespace Node

/-! ### Writing -/

/-- An object with its kind in front. --/
def tagged (kind : String) (fields : List (String × Json)) : Json :=
  .object (("type", .string kind) :: fields)

def typeName (t : Ty) : Json := .string t.name

def paramJson (p : Json × Ty) : Json := .object [("name", p.1), ("type_spec", typeName p.2)]

mutual
def toJson : Node → Json
  | program stmts => tagged "Program" [("statements", .array (listJson stmts))]
  | block stmts => tagged "Block" [("statements", .array (listJson stmts))]
  | varDecl name ty init =>
    tagged "VarDecl" [("name", name), ("type_spec", typeName ty), ("initializer", optionJson init)]
  | assignment name value => tagged "Assignment" [("name", name), ("value", toJson value)]
  | print e => tagged "Print" [("expr", toJson e)]
  | input name => tagged "Input" [("name", name)]
  | branch cond yes no =>
    tagged "If"
      [("condition", toJson cond), ("then_block", toJson yes), ("else_block", optionJson no)]
  | whileLoop cond body => tagged "While" [("condition", toJson cond), ("body", toJson body)]
  | forLoop init cond step body =>
    tagged "For" [("init", toJson init), ("condition", toJson cond), ("increment", toJson step),
      ("body", toJson body)]
  | function name params result body =>
    tagged "FunctionDecl" [("name", name), ("params", .array (params.map paramJson)),
      ("return_type", typeName result), ("body", toJson body)]
  | ret value => tagged "Return" [("value", optionJson value)]
  | exprStmt e => tagged "ExprStmt" [("expr", toJson e)]
  | literal tag payload =>
    tagged "Literal" [("value", .object [("tag", typeName tag), ("value", payload)])]
  | identifier name => tagged "Identifier" [("name", name)]
  | binary left op right =>
    tagged "BinaryExpr" [("op", op), ("left", toJson left), ("right", toJson right)]
  | unary op operand => tagged "UnaryExpr" [("op", op), ("operand", toJson operand)]
  | call name args => tagged "Call" [("name", name), ("args", .array (listJson args))]

def optionJson : Option Node → Json
  | none => .null
  | some n => toJson n

def listJson : List (Option Node) → List Json
  | [] => []
  | n :: ns => optionJson n :: listJson ns
end

/-! ### Fields -/

/-- The member `type` of an object, as messages show it. --/
def typeOf (ms : Assoc Json) : Json := (Assoc.get? ms "type").getD .null

/-- A part of an object: smaller than the object. --/
abbrev Part (ms : List (String × Json)) := { v : Json // sizeOf v < sizeOf ms }

theorem sizeOf_get? {ms : List (String × Json)} {key : String} {v : Json}
    (h : Assoc.get? ms key = some v) : sizeOf v < sizeOf ms := by
  induction ms with
  | nil => simp [Assoc.get?] at h
  | cons m ms ih =>
    obtain ⟨k, w⟩ := m
    simp only [Assoc.get?, List.lookup_cons] at h ih
    split at h
    · cases h
      simp
      omega
    · have := ih h
      simp
      omega

/-- A field that may be missing; null counts as missing. --/
def part? (ms : List (String × Json)) (key : String) : Option (Part ms) :=
  match h : Assoc.get? ms key with
  | none => none
  | some .null => none
  | some v => some ⟨v, sizeOf_get? h⟩

/-- A field that must be there. --/
def part (ms : List (String × Json)) (key : String) : Except LoadError (Part ms) :=
  match part? ms key with
  | none => .error (.missingField (typeOf ms) key)
  | some v => .ok v

def field (ms : List (String × Json)) (key : String) : Except LoadError Json := do
  let v ← part ms key
  .ok v.1

/-- The items of a field that must hold a list; each is smaller than the object. --/
def partList (ms : List (String × Json)) (key : String) : Except LoadError (List (Part ms)) := do
  let v ← part ms key
  match v with
  | ⟨.array items, h⟩ => .ok (items.attach.map fun i => ⟨i.1, by
      have := List.sizeOf_lt_of_mem i.2
      simp at h
      omega⟩)
  | _ => .error (.notAList (typeOf ms) key)

/-- The type of the given name. --/
def readType (read : String → Option Ty) (v : Json) : Except LoadError Ty :=
  match v with
  | .string s =>
    match read s with
    | some t => .ok t
    | none => .error (.unknownType v)
  | _ => .error (.unknownType v)

/-! ### Literals and parameters -/

/-- The type that a literal's tag names. Lists and objects cannot be looked up among the tags at all. --/
def readTag (ms : Assoc Json) : Except LoadError (Option Ty) :=
  match Assoc.get? ms "tag" with
  | none => .ok none
  | some (.string s) => .ok (Ty.ofValueName? s)
  | some tag => if tag.isKey then .ok none else .error (.json (.notAKey tag))

def readLiteral (v : Json) : Except LoadError Node :=
  match v with
  | .object ms => do
    match ← readTag ms, Assoc.get? ms "value" with
    | some .float, some payload =>
      let x ← payload.toFloat.mapError fun e => .json (.number e)
      .ok (.literal .float (.float x))
    | some tag, some payload => .ok (.literal tag payload)
    | _, _ => .error (.invalidLiteral v)
  | _ => .error (.invalidLiteral v)

def readParam (v : Json) : Except LoadError (Json × Ty) :=
  match v with
  | .object ms => do
    let name ← field ms "name"
    let ty ← readType Ty.ofValueName? (← field ms "type_spec")
    .ok (name, ty)
  | _ => .error (.parameterNotObject v)

/-! ### Reading -/

/-- The tree that a value stands for; null stands for none. Fields are read in the order in which they
    are written, except that the operator comes between its operands. --/
def ofJson (v : Json) : Except LoadError (Option Node) :=
  match v with
  | .null => .ok none
  | .object ms =>
    let child (p : Part ms) : Except LoadError (Option Node) := ofJson p.1
    let required (key : String) : Except LoadError Node := do
      match ← child (← part ms key) with
      | some n => .ok n
      | none => .error (.missingField (typeOf ms) key)
    let optional (key : String) : Except LoadError (Option Node) :=
      match part? ms key with
      | none => .ok none
      | some p => child p
    let list (key : String) : Except LoadError (List (Option Node)) := do
      (← partList ms key).mapM child
    some <$> match typeOf ms with
    | .string "Program" => do .ok (.program (← list "statements"))
    | .string "Block" => do .ok (.block (← list "statements"))
    | .string "VarDecl" => do
      let name ← field ms "name"
      let ty ← readType Ty.ofValueName? (← field ms "type_spec")
      .ok (.varDecl name ty (← optional "initializer"))
    | .string "Assignment" => do
      let name ← field ms "name"
      .ok (.assignment name (← required "value"))
    | .string "Print" => do .ok (.print (← required "expr"))
    | .string "Input" => do .ok (.input (← field ms "name"))
    | .string "If" => do
      let cond ← required "condition"
      let yes ← required "then_block"
      .ok (.branch cond yes (← optional "else_block"))
    | .string "While" => do
      let cond ← required "condition"
      .ok (.whileLoop cond (← required "body"))
    | .string "For" => do
      let init ← required "init"
      let cond ← required "condition"
      let step ← required "increment"
      .ok (.forLoop init cond step (← required "body"))
    | .string "FunctionDecl" => do
      let name ← field ms "name"
      let params ← (← partList ms "params").mapM fun p => readParam p.1
      let result ← readType Ty.ofName? (← field ms "return_type")
      .ok (.function name params result (← required "body"))
    | .string "Return" => do .ok (.ret (← optional "value"))
    | .string "ExprStmt" => do .ok (.exprStmt (← required "expr"))
    | .string "Literal" => do readLiteral (← field ms "value")
    | .string "Identifier" => do .ok (.identifier (← field ms "name"))
    | .string "BinaryExpr" => do
      let left ← required "left"
      let op ← field ms "op"
      .ok (.binary left op (← required "right"))
    | .string "UnaryExpr" => do
      let op ← field ms "op"
      .ok (.unary op (← required "operand"))
    | .string "Call" => do
      let name ← field ms "name"
      .ok (.call name (← list "args"))
    | type => .error (.unknownNode type)
  | _ => .error (.notAnObject v)
termination_by sizeOf v
decreasing_by
  have := p.2
  simp
  omega

end Node
end TypedImp
