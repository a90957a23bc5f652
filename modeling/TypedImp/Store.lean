import TypedImp.Value.Basic
import TypedImp.Assoc

/-! The variables of a running program: the globals, and a frame for each active call. Only the innermost
    frame can be read, and the globals only where no call is active. An assignment looks in the innermost
    frame and then in the globals. A declaration binds its name anew. -/

namespace TypedImp

/-- A variable has its declared type, and a value once it is assigned. --/
structure Binding where
  ty : Ty
  value : Option Value
  deriving BEq, Inhabited, Repr

abbrev Frame := Assoc Binding

inductive StoreError where
  | undefined (name : String)
  | unassigned (name : String)
  | undeclared (name : String)
  | wrongType (name : String) (declared actual : Ty)
  | noFrame
  | noValue
  deriving DecidableEq, Inhabited, Repr

namespace StoreError

def complaint? : StoreError → Option String
  | undefined name => some ("undefined variable '" ++ name ++ "'")
  | unassigned name => some ("variable '" ++ name ++ "' used before it was assigned")
  | undeclared name => some ("assignment to undeclared variable '" ++ name ++ "'")
  | wrongType name declared actual =>
    some ("cannot store a value of type " ++ actual.name ++ " in '" ++ name ++ "' of type " ++ declared.name)
  | noFrame | noValue => none

def message (e : StoreError) : String :=
  match e.complaint?, e with
  | some m, _ => m
  | none, noValue => "'NoneType' object has no attribute 'type'"
  | none, _ => "pop from empty list"

end StoreError

/-- The innermost frame comes first. --/
structure Store where
  globals : Frame
  frames : List Frame
  deriving BEq, Inhabited, Repr

namespace Store

def empty : Store := ⟨[], []⟩

/-- The number of active calls. --/
def depth (s : Store) : Nat := s.frames.length

/-- The bindings that can be read. --/
def current (s : Store) : Frame := s.frames.headD s.globals

/-- Changes the bindings that can be read. --/
def mapCurrent (s : Store) (f : Frame → Frame) : Store :=
  match s.frames with
  | [] => { s with globals := f s.globals }
  | frame :: frames => { s with frames := f frame :: frames }

def push (s : Store) (frame : Frame) : Store := { s with frames := frame :: s.frames }

/-- The store without its innermost frame, if it has one. --/
def dropFrame (s : Store) : Store := { s with frames := s.frames.tail }

def pop (s : Store) : Except StoreError Store :=
  if s.frames.isEmpty then .error .noFrame else .ok s.dropFrame

def declare (s : Store) (name : String) (ty : Ty) (value : Option Value) : Store :=
  s.mapCurrent fun frame => frame.insert name ⟨ty, value⟩

/-! ### Reading -/

def lookup (s : Store) (name : String) : Except StoreError Binding :=
  match s.current.get? name with
  | some b => .ok b
  | none => .error (.undefined name)

def get (s : Store) (name : String) : Except StoreError Value := do
  let b ← s.lookup name
  match b.value with
  | some v => .ok v
  | none => .error (.unassigned name)

/-! ### Assigning -/

/-- Is the name bound in the innermost frame of an active call? --/
def isLocal (s : Store) (name : String) : Bool := s.frames.head?.any (·.has name)

/-- The binding that an assignment would change. --/
def assignable (s : Store) (name : String) : Except StoreError Binding :=
  match (s.frames.head?.bind (·.get? name)).or (s.globals.get? name) with
  | some b => .ok b
  | none => .error (.undeclared name)

/-- Gives a value to a variable, which must be of the value's type. --/
def set (s : Store) (name : String) (v : Value) : Except StoreError Store := do
  let b ← s.assignable name
  if v.ty ≠ b.ty then .error (.wrongType name b.ty v.ty)
  else if s.isLocal name then .ok (s.mapCurrent fun frame => frame.insert name ⟨b.ty, some v⟩)
  else .ok { s with globals := s.globals.insert name ⟨b.ty, some v⟩ }

/-- Gives a value to a variable, if there is one to give. --/
def setOption (s : Store) (name : String) : Option Value → Except StoreError Store
  | some v => s.set name v
  | none => do
    discard (s.assignable name)
    .error .noValue

end Store
end TypedImp
