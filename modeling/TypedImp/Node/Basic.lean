import TypedImp.Ty
import TypedImp.Json.Basic

/-! Loose trees, as interchange files hold them: nodes know their kind and their type names, but a node
    of any kind may stand in any place, and names, operators and literals are whatever the file holds. -/

namespace TypedImp

/-- A member of a list may be missing; so may an initializer, an else branch and a returned value. --/
inductive Node where
  | program (statements : List (Option Node))
  | block (statements : List (Option Node))
  | varDecl (name : Json) (ty : Ty) (init : Option Node)
  | assignment (name : Json) (value : Node)
  | print (e : Node)
  | input (name : Json)
  | branch (cond yes : Node) (no : Option Node)
  | whileLoop (cond body : Node)
  | forLoop (init cond step body : Node)
  | function (name : Json) (params : List (Json × Ty)) (result : Ty) (body : Node)
  | ret (value : Option Node)
  | exprStmt (e : Node)
  | literal (tag : Ty) (payload : Json)
  | identifier (name : Json)
  | binary (left : Node) (op : Json) (right : Node)
  | unary (op : Json) (operand : Node)
  | call (name : Json) (args : List (Option Node))
  deriving BEq, Inhabited, Repr

namespace Node

/-- The name of a node's kind. --/
def kind : Node → String
  | program .. => "Program"
  | block .. => "Block"
  | varDecl .. => "VarDecl"
  | assignment .. => "Assignment"
  | print .. => "Print"
  | input .. => "Input"
  | branch .. => "If"
  | whileLoop .. => "While"
  | forLoop .. => "For"
  | function .. => "FunctionDecl"
  | ret .. => "Return"
  | exprStmt .. => "ExprStmt"
  | literal .. => "Literal"
  | identifier .. => "Identifier"
  | binary .. => "BinaryExpr"
  | unary .. => "UnaryExpr"
  | call .. => "Call"

/-- What messages call the thing in a place; nothing is a kind of its own. --/
def kindOf : Option Node → String
  | none => "NoneType"
  | some n => n.kind

end Node
end TypedImp
