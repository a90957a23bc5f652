import TypedImp.Typing.Error

/-! The scopes of a program under check. They stand in an arena, each with the place of the one around
    it; the innermost scope is the current one. A check that fails leaves the scopes it has entered. -/

namespace TypedImp
namespace Typing

/-- What a name stands for: a variable of a type, or a function with parameters and a result type. --/
structure Symbol where
  ty : Ty
  params : Option (List Param)
  deriving DecidableEq, Inhabited, Repr

def Symbol.variable (ty : Ty) : Symbol := ⟨ty, none⟩

def Symbol.function (params : List Param) (result : Ty) : Symbol := ⟨result, some params⟩

structure Scope where
  parent : Option Nat
  symbols : Assoc Symbol
  deriving Inhabited, Repr

/-- What a check reports about its progress. --/
inductive Event where
  | enterScope (index : Nat) (parent : Nat)
  | exitScope (index : Nat)
  | declareFunction (name : String) (params : List Param) (result : Ty)
  | declareVariable (name : String) (ty : Ty)
  deriving Repr

namespace Event

def paramText (p : Param) : String := p.name ++ ": " ++ p.ty.name

def text : Event → String
  | enterScope index parent => "enter scope " ++ toString index ++ " (parent " ++ toString parent ++ ")"
  | exitScope index => "exit scope " ++ toString index
  | declareFunction name params result =>
    "declare function " ++ name ++ "(" ++ ", ".intercalate (params.map paramText) ++ "): " ++ result.name
  | declareVariable name ty => "declare " ++ name ++ ": " ++ ty.name

end Event

/-- The arena, the place of the current scope, the result type of the function whose body is under
    check, and the events so far, the latest first. --/
structure Arena where
  scopes : List Scope
  current : Nat
  result : Option Ty
  events : List Event
  deriving Inhabited, Repr

namespace Arena

def start : Arena := ⟨[⟨none, []⟩], 0, none, []⟩

def scope (a : Arena) : Scope := a.scopes.getD a.current default

def record (a : Arena) (e : Event) : Arena := { a with events := e :: a.events }

/-- Searches a scope and those around it, at most as many as the second argument says. --/
def search (scopes : List Scope) : Nat → Nat → String → Option Symbol
  | 0, _, _ => none
  | n + 1, i, name =>
    match scopes[i]? with
    | none => none
    | some s =>
      match s.symbols.get? name, s.parent with
      | some symbol, _ => some symbol
      | none, some parent => search scopes n parent name
      | none, none => none

/-- What a name stands for in the current scope. --/
def resolve? (a : Arena) (name : String) : Option Symbol := search a.scopes a.scopes.length a.current name

/-- The arena with a symbol more in the current scope. --/
def add (a : Arena) (name : String) (symbol : Symbol) : Arena :=
  let s := a.scope
  { a with scopes := a.scopes.set a.current { s with symbols := s.symbols.insert name symbol } }

end Arena

/-- A check that needs and changes the arena. --/
abbrev Checker (α : Type) := EStateM Error Arena α

namespace Checker

def record (e : Event) : Checker Unit := modify fun a => a.record e

def enterScope : Checker Unit := do
  let a ← get
  let inner : Scope := ⟨some a.current, []⟩
  set { a with scopes := a.scopes ++ [inner], current := a.scopes.length }
  record (.enterScope a.scopes.length a.current)

/-- Goes back to the scope around the current one. --/
def exitScope : Checker Unit := do
  let a ← get
  match a.scope.parent with
  | none => throw .globalScopeExit
  | some parent =>
    record (.exitScope a.current)
    modify fun a => { a with scopes := a.scopes.dropLast, current := parent }

/-- Declares a name in the current scope, where it must be new. --/
def declare (name : String) (symbol : Symbol) : Checker Unit := do
  let a ← get
  if a.scope.symbols.has name then
    throw (if symbol.params.isSome then .redeclaredFunction name else .redeclaredVariable name)
  else
    set (a.add name symbol)

def resolve (name : String) : Checker Symbol := do
  match (← get).resolve? name with
  | some symbol => return symbol
  | none => throw (.undeclared name)

/-- The type of a variable. --/
def resolveVariable (name : String) : Checker Ty := do
  let symbol ← resolve name
  if symbol.params.isSome then throw (.notAVariable name) else return symbol.ty

/-- Runs a check of the body of a function with the given result type. --/
def withResult (ty : Ty) (check : Checker Unit) : Checker Unit := fun a =>
  match check { a with result := some ty } with
  | .ok () a => .ok () { a with result := none }
  | .error e a => .error e { a with result := none }

/-- Runs a check in a scope of its own. --/
def inScope (check : Checker Unit) : Checker Unit := do
  enterScope
  check
  exitScope

end Checker
end Typing
end TypedImp
