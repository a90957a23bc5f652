import TypedImp.Program.Basic
import TypedImp.Node.Interchange

/-! Programs as loose trees and back. Every program has a tree; a tree that is no program becomes one
    with strays. -/

namespace TypedImp

/-! ### To trees -/

/-- What fills a place that must not be empty; only a stray can leave one. --/
def Node.filling : Option Node → Node
  | some n => n
  | none => .block []

namespace Expr

mutual
def toTree : Expr → Option Node
  | literal v => some (.literal v.ty v.payload)
  | var name => some (.identifier (.string name))
  | unary op operand => some (.unary (.string op.text) (Node.filling (toTree operand)))
  | binary left op right =>
    some (.binary (Node.filling (toTree left)) (.string op.text) (Node.filling (toTree right)))
  | call name args => some (.call (.string name) (toTrees args))
  | stray node => node
  | misnamed _ node => some node

def toTrees : List Expr → List (Option Node)
  | [] => []
  | e :: es => toTree e :: toTrees es
end

/-- The tree in a place that must be filled. --/
def toNode (e : Expr) : Node := Node.filling e.toTree

end Expr

def Param.toNode (p : Param) : Json × Ty := (.string p.name, p.ty)

namespace Stmt

mutual
def toTree : Stmt → Option Node
  | varDecl name ty init => some (.varDecl (.string name) ty (init.map Expr.toNode))
  | assign name value => some (.assignment (.string name) value.toNode)
  | print e => some (.print e.toNode)
  | input name => some (.input (.string name))
  | ifThen cond body => some (.branch cond.toNode (.block (toTrees body)) none)
  | ifElse cond yes no => some (.branch cond.toNode (.block (toTrees yes)) (some (.block (toTrees no))))
  | whileLoop cond body => some (.whileLoop cond.toNode (.block (toTrees body)))
  | forLoop init cond step body =>
    some (.forLoop (Node.filling (toTree init)) cond.toNode (Node.filling (toTree step)) (.block (toTrees body)))
  | function name params result body =>
    some (.function (.string name) (params.map Param.toNode) result (.block (toTrees body)))
  | ret value => some (.ret (value.map Expr.toNode))
  | expr e => some (.exprStmt e.toNode)
  | block body => some (.block (toTrees body))
  | stray node => node
  | misnamed _ _ node => some node
  | notBlock node => node

def toTrees : List Stmt → List (Option Node)
  | [] => []
  | s :: ss => toTree s :: toTrees ss
end

end Stmt

def Program.toNode (p : Program) : Node := .program (Stmt.toTrees p.body)

/-! ### From trees -/

namespace Expr

mutual
def ofNode : Node → Expr
  | .literal tag payload => .literal (Value.ofPayload tag payload)
  | .identifier name => if name.isKey then .var name.asText else .misnamed name (.identifier name)
  | .unary op operand => .unary (UnaryOp.ofText op.asText) (ofNode operand)
  | .binary left op right => .binary (ofNode left) (BinaryOp.ofText op.asText) (ofNode right)
  | .call name args =>
    if name.isKey then .call name.asText (ofTrees args) else .misnamed name (.call name args)
  | n => .stray (some n)

def ofTree : Option Node → Expr
  | none => .stray none
  | some n => ofNode n

def ofTrees : List (Option Node) → List Expr
  | [] => []
  | n :: ns => ofTree n :: ofTrees ns
end

end Expr

def Param.ofNode (p : Json × Ty) : Param := ⟨p.1.asText, p.2⟩

namespace Stmt

mutual
def ofNode : Node → Stmt
  | .varDecl name ty init =>
    if name.isKey then .varDecl name.asText ty (init.map Expr.ofNode)
    else .misnamed name (init.map fun e => (ty, Expr.ofNode e)) (.varDecl name ty init)
  | .assignment name value =>
    if name.isKey then .assign name.asText (Expr.ofNode value)
    else .misnamed name none (.assignment name value)
  | .print e => .print (Expr.ofNode e)
  | .input name => if name.isKey then .input name.asText else .misnamed name none (.input name)
  | .branch cond yes none => .ifThen (Expr.ofNode cond) (bodyOf yes)
  | .branch cond yes (some no) => .ifElse (Expr.ofNode cond) (bodyOf yes) (bodyOf no)
  | .whileLoop cond body => .whileLoop (Expr.ofNode cond) (bodyOf body)
  | .forLoop init cond step body =>
    .forLoop (ofNode init) (Expr.ofNode cond) (ofNode step) (bodyOf body)
  | .function name params result body =>
    match (name :: params.map Prod.fst).find? fun n => !n.isKey with
    | none => .function name.asText (params.map Param.ofNode) result (bodyOf body)
    | some n => .misnamed n none (.function name params result body)
  | .ret value => .ret (value.map Expr.ofNode)
  | .exprStmt e => .expr (Expr.ofNode e)
  | .block stmts => .block (ofTrees stmts)
  | n => .stray (some n)

/-- The statements of a node that should be a block; a program will do. --/
def bodyOf : Node → List Stmt
  | .block stmts => ofTrees stmts
  | .program stmts => ofTrees stmts
  | n => [.notBlock (some n)]

def ofTree : Option Node → Stmt
  | none => .stray none
  | some n => ofNode n

def ofTrees : List (Option Node) → List Stmt
  | [] => []
  | n :: ns => ofTree n :: ofTrees ns
end

end Stmt

/-- The program that a tree stands for; a block will do. --/
def Program.ofTree : Option Node → Program
  | none => ⟨[.notBlock none]⟩
  | some n => ⟨Stmt.bodyOf n⟩

end TypedImp
