import TypedImp.Value.Basic
import TypedImp.Operator
import TypedImp.Word

/-! What the operators compute. Integers wrap around at 64 bits; division truncates, and the remainder
    has the sign of the dividend. A `float` on the left makes a `float` of an `int` on the right. -/

namespace TypedImp

inductive OperationError where
  | divisionByZero
  | remainderByZero
  | infiniteDividend
  | json (e : JsonError)
  | incomparable (left right : Ty)
  | unsupported (op : BinaryOp) (left right : Ty)
  | unknownOperator (op : BinaryOp)
  | unknownSign (op : UnaryOp)
  | notNumeric (op : UnaryOp) (operand : Ty)
  deriving BEq, Inhabited, Repr

namespace OperationError

def complaint? : OperationError → Option String
  | divisionByZero => some "division by zero"
  | remainderByZero => some "modulo by zero"
  | incomparable left right => some ("cannot compare " ++ left.name ++ " with " ++ right.name)
  | unsupported op left right =>
    some ("unsupported " ++ op.text ++ " for " ++ left.name ++ " and " ++ right.name)
  | unknownOperator op => some ("unknown operator " ++ op.text)
  | unknownSign op => some ("unsupported unary operator " ++ op.text)
  | notNumeric op operand =>
    some ("unary " ++ op.text ++ " expects a numeric operand, got " ++ operand.name)
  | infiniteDividend | json _ => none

def message (e : OperationError) : String :=
  match e.complaint?, e with
  | some m, _ => m
  | none, json e => e.message
  | none, _ => "math domain error"

end OperationError

namespace Value

/-! ### Loose operands

An operand whose payload does not fit its tag takes the part of its tag. -/

/-- The integer that a result stands for, brought into range. --/
def wrapped (r : Except JsonError Json) : Except OperationError Value :=
  match r with
  | .ok (.int n) => .ok (int (Word.wrap n))
  | .ok v => .error (.json (.unsupported "&=" v (.int 0)))
  | .error e => .error (.json e)

/-- A result as the payload of a literal. --/
def tagged (tag : Ty) (r : Except JsonError Json) : Except OperationError Value :=
  match r with
  | .ok v => .ok (ofPayload tag v)
  | .error e => .error (.json e)

def compareLoose (op : BinaryOp) (a b : Json) : Except OperationError Value :=
  match a.order op.text b with
  | .ok o => .ok (bool (op.admits o))
  | .error e => .error (.json e)

/-- The operators on the payloads of two integers other than equality. --/
def onPayloads (op : BinaryOp) (a b : Json) : Except OperationError Value :=
  match op with
  | .add => wrapped (a.add b)
  | .sub => wrapped (a.sub b)
  | .mul => wrapped (a.mul b)
  | .div => if b.isZero then .error .divisionByZero else wrapped (Number.toJson <$> a.quotient b)
  | .mod => if b.isZero then .error .remainderByZero else tagged .int (a.remainder b)
  | .lt | .le | .gt | .ge => compareLoose op a b
  | op => .error (.unknownOperator op)

/-- The operators other than equality where an operand is loose. --/
def onLoose (op : BinaryOp) (a b : Value) : Except OperationError Value :=
  if a.ty = .int && b.ty = .int then onPayloads op a.payload b.payload
  else if op = .add && a.ty = .string && b.ty = .string then tagged .string (a.payload.add b.payload)
  else .error (.unsupported op a.ty b.ty)

/-! ### Unary operators -/

def unary (op : UnaryOp) (v : Value) : Except OperationError Value :=
  match op, v with
  | .minus, int n => .ok (int (Word.wrap (-n)))
  | .minus, float x => .ok (float (-x))
  | .plus, int n => .ok (int n)
  | .plus, float x => .ok (float x)
  | .minus, loose .int v => wrapped v.neg
  | .plus, loose .int v => .ok (loose .int v)
  | .other s, _ => .error (.unknownSign (.other s))
  | op, v => .error (.notNumeric op v.ty)

/-! ### Binary operators -/

/-- The operators on integers other than equality. --/
def onInts (op : BinaryOp) (a b : Int) : Except OperationError Value :=
  match op with
  | .add => .ok (int (Word.wrap (a + b)))
  | .sub => .ok (int (Word.wrap (a - b)))
  | .mul => .ok (int (Word.wrap (a * b)))
  | .div => if b = 0 then .error .divisionByZero else .ok (int (Word.wrap (a.tdiv b)))
  | .mod => if b = 0 then .error .remainderByZero else .ok (int (a.tmod b))
  | .lt => .ok (bool (a < b))
  | .le => .ok (bool (a ≤ b))
  | .gt => .ok (bool (b < a))
  | .ge => .ok (bool (b ≤ a))
  | op => .error (.unknownOperator op)

/-- The operators on numbers with a fraction other than equality. --/
def onFloats (op : BinaryOp) (a b : Float) : Except OperationError Value :=
  match op with
  | .add => .ok (float (a + b))
  | .sub => .ok (float (a - b))
  | .mul => .ok (float (a * b))
  | .div => if b == 0 then .error .divisionByZero else .ok (float (a / b))
  | .mod =>
    if b == 0 then .error .remainderByZero
    else
      match Binary64.remainder? a b with
      | none => .error .infiniteDividend
      | some r => .ok (float r)
  | .lt => .ok (bool (a < b))
  | .le => .ok (bool (a ≤ b))
  | .gt => .ok (bool (b < a))
  | .ge => .ok (bool (b ≤ a))
  | op => .error (.unknownOperator op)

/-- The right operand as it counts beside the left one. --/
def beside (a b : Value) : Except OperationError Value :=
  match a with
  | float _ =>
    match b.widen .float with
    | .ok b => .ok b
    | .error e => .error (.json (.number e))
  | _ => .ok b

/-- Operands of one kind can be equal or not; those of two kinds cannot be compared. --/
def compared (a b : Value) : Except OperationError Bool :=
  if a.ty = b.ty then .ok (a.same b) else .error (.incomparable a.ty b.ty)

/-- The operators that need both operands. --/
def binary (op : BinaryOp) (a b : Value) : Except OperationError Value := do
  let b ← beside a b
  match op with
  | .eq => do .ok (bool (← compared a b))
  | .ne => do .ok (bool (!(← compared a b)))
  | op =>
    match a, b with
    | int m, int n => onInts op m n
    | float x, float y => onFloats op x y
    | string s, string t =>
      if op = .add then .ok (string (s ++ t)) else .error (.unsupported op .string .string)
    | a, b => onLoose op a b

end Value
end TypedImp
