import TypedImp.Value.Basic
import TypedImp.Operator
import TypedImp.Node.Basic

/-! Programs as trees. Both parsers build them, the checker judges them and the interpreter runs them.
    A tree read from outside may hold nodes where they do not belong; they stay in it as strays, which
    the checker and the interpreter refuse when they come to them. -/

namespace TypedImp

inductive Expr where
  | literal (v : Value)
  | var (name : String)
  | unary (op : UnaryOp) (operand : Expr)
  | binary (left : Expr) (op : BinaryOp) (right : Expr)
  | call (name : String) (args : List Expr)
  /-- A node of another kind, or nothing, in the place of an expression. --/
  | stray (node : Option Node)
  /-- A node with a name by which nothing can be looked up. --/
  | misnamed (name : Json) (node : Node)
  deriving BEq, Inhabited, Repr

structure Param where
  name : String
  ty : Ty
  deriving DecidableEq, Inhabited, Repr

inductive Stmt where
  | varDecl (name : String) (ty : Ty) (init : Option Expr)
  | assign (name : String) (value : Expr)
  | print (e : Expr)
  | input (name : String)
  | ifThen (cond : Expr) (body : List Stmt)
  | ifElse (cond : Expr) (yes no : List Stmt)
  | whileLoop (cond : Expr) (body : List Stmt)
  | forLoop (init : Stmt) (cond : Expr) (step : Stmt) (body : List Stmt)
  | function (name : String) (params : List Param) (result : Ty) (body : List Stmt)
  | ret (value : Option Expr)
  | expr (e : Expr)
  | block (body : List Stmt)
  /-- A node of another kind, or nothing, in the place of a statement. --/
  | stray (node : Option Node)
  /-- A node with a name by which nothing can be looked up; the initializer still comes first. --/
  | misnamed (name : Json) (init : Option (Ty × Expr)) (node : Node)
  /-- The only member of a body that is not a block at all. --/
  | notBlock (node : Option Node)
  deriving BEq, Inhabited, Repr

structure Program where
  body : List Stmt
  deriving BEq, Inhabited, Repr

/-- A function as it can be called. --/
structure Function where
  name : String
  params : List Param
  result : Ty
  body : List Stmt
  deriving BEq, Inhabited, Repr

namespace Stmt

/-- The function that a statement declares. --/
def function? : Stmt → Option Function
  | function name params result body => some ⟨name, params, result, body⟩
  | _ => none

end Stmt

namespace Program

/-- The functions declared at the top level, in order. --/
def functions (p : Program) : List Function := p.body.filterMap Stmt.function?

/-- The statements of the top level that are not declarations of functions. --/
def actions (p : Program) : List Stmt := p.body.filter fun s => s.function?.isNone

end Program
end TypedImp
