import TypedImp.Typing.Arena

/-! The static rules, checked in one walk that stops at the first fault. The functions of the top level
    are declared before anything else, so that they can call themselves and each other. A variable is
    visible behind its declaration; every block is a scope; the header of a loop is a scope around its
    body; parameters and body of a function share one. -/

namespace TypedImp
namespace Typing
namespace Checker

/-! ### Operators -/

/-- The result type of a unary operator. --/
def unaryType (op : UnaryOp) (operand : Ty) : Except Error Ty :=
  if operand.isNumeric then .ok operand else .error (.badOperand op operand)

/-- The result type of a binary operator. The operators of logic take truth values. For all others the
    right operand must fit the left one, so that only an `int` on the right is widened. --/
def binaryType (op : BinaryOp) (left right : Ty) : Except Error Ty :=
  match op.family with
  | .logical => if left = .bool && right = .bool then .ok .bool else .error (.notBoolOperands op left right)
  | family =>
    if !left.accepts right then .error (.incompatibleOperands op left right)
    else
      match family with
      | .equality => .ok .bool
      | .relational => if left.isNumeric then .ok .bool else .error (.notNumericOperands op left right)
      | .arithmetic =>
        if left.isNumeric || (op = .add && left = .string) then .ok left
        else .error (.notNumericOperands op left right)
      | _ => .error (.unknownOperator op)

/-! ### Expressions -/

/-- A type that a value has. --/
def asValue (ty : Ty) : Checker Ty := if ty = .void then throw .noValue else return ty

mutual
/-- The type of an expression; that of a call may be `void`. --/
def typeOf : Expr → Checker Ty
  | .literal v => return v.ty
  | .var name => resolveVariable name
  | .unary op operand => do
    let ty ← asValue (← typeOf operand)
    MonadExcept.ofExcept (unaryType op ty)
  | .binary left op right => do
    let l ← asValue (← typeOf left)
    let r ← asValue (← typeOf right)
    MonadExcept.ofExcept (binaryType op l r)
  | .call name args => do
    let symbol ← resolve name
    match symbol.params with
    | none => throw (.notAFunction name)
    | some params =>
      if args.length ≠ params.length then throw (.wrongArity name params.length args.length)
      checkArguments name 1 params args
      return symbol.ty
  | .stray node => throw (.strayExpression node)
  | .misnamed name _ => throw (.misnamed name)

/-- Checks arguments against parameters; the first of them has the given number. --/
def checkArguments (name : String) (index : Nat) : List Param → List Expr → Checker Unit
  | p :: params, e :: args => do
    let ty ← asValue (← typeOf e)
    if !p.ty.accepts ty then throw (.badArgument index name p.ty ty)
    checkArguments name (index + 1) params args
  | _, _ => return ()
end

/-- The type of an expression that is used as a value. --/
def valueType (e : Expr) : Checker Ty := do asValue (← typeOf e)

def checkCondition (construct : Construct) (e : Expr) : Checker Unit := do
  let ty ← valueType e
  if ty ≠ .bool then throw (.conditionNotBool construct ty)

/-! ### Statements -/

def checkInitializer (name : String) (ty : Ty) (e : Expr) : Checker Unit := do
  let actual ← valueType e
  if !ty.accepts actual then throw (.badInitializer name ty actual)

/-- The initializer is checked before the variable is declared. --/
def checkVarDecl (name : String) (ty : Ty) (init : Option Expr) : Checker Unit := do
  match init with
  | none => pure ()
  | some e => checkInitializer name ty e
  declare name (.variable ty)
  record (.declareVariable name ty)

def checkAssignment (name : String) (value : Expr) : Checker Unit := do
  let ty ← resolveVariable name
  let actual ← valueType value
  if !ty.accepts actual then throw (.badAssignment name ty actual)

def checkReturn (value : Option Expr) : Checker Unit := do
  match (← get).result, value with
  | none, _ => throw .returnOutside
  | some ty, none => if ty ≠ .void then throw (.missingReturnValue ty)
  | some ty, some e =>
    if ty = .void then throw .voidReturnsValue
    let actual ← valueType e
    if !ty.accepts actual then throw (.badReturn ty actual)

def declareParameters (function : String) : List Param → Checker Unit
  | [] => return ()
  | p :: params => do
    if (← get).scope.symbols.has p.name then throw (.duplicateParameter p.name function)
    declare p.name (.variable p.ty)
    declareParameters function params

/-- A function may be declared only outside of every function and block. --/
def requireTop (name : String) : Checker Unit := do
  let a ← get
  if a.result.isSome || a.scope.parent.isSome then throw (.functionNotAtTop name)

mutual
def checkStatement : Stmt → Checker Unit
  | .varDecl name ty init => checkVarDecl name ty init
  | .assign name value => checkAssignment name value
  | .print e => discard (valueType e)
  | .input name => discard (resolveVariable name)
  | .ifThen cond body => do
    checkCondition .ifStatement cond
    inScope (checkStatements body)
  | .ifElse cond yes no => do
    checkCondition .ifStatement cond
    inScope (checkStatements yes)
    inScope (checkStatements no)
  | .whileLoop cond body => do
    checkCondition .whileLoop cond
    inScope (checkStatements body)
  | .forLoop init cond step body => inScope do
    checkStatement init
    checkCondition .forLoop cond
    checkStatement step
    inScope (checkStatements body)
  | .function name params result body => do
    requireTop name
    inScope do
      declareParameters name params
      withResult result (checkStatements body)
  | .ret value => checkReturn value
  | .expr e => discard (typeOf e)
  | .block body => inScope (checkStatements body)
  | .stray node => throw (.strayStatement node)
  | .misnamed name init _ => do
    match init with
    | none => pure ()
    | some (ty, e) => checkInitializer name.asText ty e
    throw (.misnamed name)
  | .notBlock node => throw (.notABlock node)

def checkStatements : List Stmt → Checker Unit
  | [] => return ()
  | s :: ss => do
    checkStatement s
    checkStatements ss
end

/-- Checks the statements of a block in a scope of their own. --/
def checkBlock (body : List Stmt) : Checker Unit := inScope (checkStatements body)

/-! ### Programs -/

def declareFunctions : List Function → Checker Unit
  | [] => return ()
  | f :: fs => do
    declare f.name (.function f.params f.result)
    record (.declareFunction f.name f.params f.result)
    declareFunctions fs

def checkProgram (p : Program) : Checker Unit := do
  declareFunctions p.functions
  checkStatements p.body

end Checker

/-- What a check answers, and the arena that it leaves. --/
structure Checked (α : Type) where
  answer : Except Error α
  arena : Arena

def Checker.run {α : Type} (c : Checker α) (a : Arena) : Checked α :=
  match c a with
  | .ok x a => ⟨.ok x, a⟩
  | .error e a => ⟨.error e, a⟩

/-- Checks a whole program by itself. --/
def check (p : Program) : Checked Unit := (Checker.checkProgram p).run Arena.start

end Typing
end TypedImp
