import TypedImp.Json.Number

/-! Operators on interchange values of any kind. Numbers are added, texts and lists are joined; numbers,
    texts and lists can be ordered among themselves, and everything can be equal to everything. -/

namespace TypedImp

/-- Why an operator does not take its operands. --/
inductive JsonError where
  | number (e : NumberError)
  | unsupported (op : String) (left right : Json)
  | notJoinable (left right : Json)
  | notACount (v : Json)
  | countTooLarge
  | badOperand (op : String) (v : Json)
  | unordered (op : String) (left right : Json)
  | notText (index : Nat) (v : Json)
  | notAKey (v : Json)
  deriving BEq, Inhabited, Repr

namespace JsonError

def message : JsonError → String
  | number e => e.message
  | unsupported op left right =>
    "unsupported operand type(s) for " ++ op ++ ": '" ++ left.kindName ++ "' and '" ++ right.kindName ++ "'"
  | notJoinable left right =>
    "can only concatenate " ++ left.kindName ++ " (not \"" ++ right.kindName ++ "\") to " ++ left.kindName
  | notACount v => "can't multiply sequence by non-int of type '" ++ v.kindName ++ "'"
  | countTooLarge => "cannot fit 'int' into an index-sized integer"
  | badOperand op v => "bad operand type for " ++ op ++ ": '" ++ v.kindName ++ "'"
  | unordered op left right =>
    "'" ++ op ++ "' not supported between instances of '" ++ left.kindName ++ "' and '" ++ right.kindName ++ "'"
  | notText index v =>
    "sequence item " ++ toString index ++ ": expected str instance, " ++ v.kindName ++ " found"
  | notAKey v => "unhashable type: '" ++ v.kindName ++ "'"

end JsonError

namespace Json

def ofNumber (r : Except NumberError Number) : Except JsonError Json :=
  match r with
  | .ok n => .ok n.toJson
  | .error e => .error (.number e)

/-! ### Equality -/

/-- Is it the one float that is no number? --/
def isNaN : Json → Bool
  | float x => x.isNaN
  | _ => false

mutual
/-- Equality of contents. Numbers are equal by value, and the order of members does not count. --/
def same : Json → Json → Bool
  | null, null => true
  | string s, string t => s == t
  | array xs, array ys => sameItems xs ys
  | object ms, object ns => ms.length == ns.length && sameMembers ms ns
  | a, b =>
    match a.number?, b.number? with
    | some m, some n => m.same n
    | _, _ => false

/-- Inside of lists and objects even what is no number equals itself. --/
def sameItems : List Json → List Json → Bool
  | [], [] => true
  | x :: xs, y :: ys => (x.isNaN && y.isNaN || same x y) && sameItems xs ys
  | _, _ => false

/-- Does each of the members have an equal one among the others? --/
def sameMembers : List (String × Json) → List (String × Json) → Bool
  | [], _ => true
  | (k, x) :: ms, ns =>
    (match List.lookup k ns with
      | some y => x.isNaN && y.isNaN || same x y
      | none => false) && sameMembers ms ns
end

/-! ### Order -/

def orderTexts (s t : String) : Ordering := if s < t then .lt else if s = t then .eq else .gt

mutual
/-- How two values compare for an operator; numbers may not compare at all. --/
def order (op : String) : Json → Json → Except JsonError (Option Ordering)
  | string s, string t => .ok (some (orderTexts s t))
  | array xs, array ys => orderItems op xs ys
  | a, b =>
    match a.number?, b.number? with
    | some m, some n => .ok (m.order n)
    | _, _ => .error (.unordered op a b)

/-- The first items that differ decide, or else the lengths. --/
def orderItems (op : String) : List Json → List Json → Except JsonError (Option Ordering)
  | [], [] => .ok (some .eq)
  | [], _ :: _ => .ok (some .lt)
  | _ :: _, [] => .ok (some .gt)
  | x :: xs, y :: ys => if x.isNaN && y.isNaN || same x y then orderItems op xs ys else order op x y
end

/-! ### Sums and products -/

/-- The sum of numbers; texts and lists are joined. --/
def add : Json → Json → Except JsonError Json
  | string s, string t => .ok (string (s ++ t))
  | array xs, array ys => .ok (array (xs ++ ys))
  | string s, b => .error (.notJoinable (string s) b)
  | array xs, b => .error (.notJoinable (array xs) b)
  | a, b =>
    match a.number?, b.number? with
    | some m, some n => ofNumber (m.add n)
    | _, _ => .error (.unsupported "+" a b)

def sub (a b : Json) : Except JsonError Json :=
  match a.number?, b.number? with
  | some m, some n => ofNumber (m.sub n)
  | _, _ => .error (.unsupported "-" a b)

/-- How often a text or a list can be repeated at most. --/
def maxCount : Nat := Nat.pow 2 63 - 1

/-- A text or list in a row as often as another value says. Only the kind of the result matters, so the
    row is not built. --/
def repeated (row count : Json) : Except JsonError Json :=
  match count with
  | float _ => .error (.notACount count)
  | _ =>
    match count.number? with
    | some (.int n) => if maxCount < n.natAbs then .error .countTooLarge else .ok row
    | _ => .error (.notACount count)

/-- The product of numbers; a text or a list is repeated. --/
def mul : Json → Json → Except JsonError Json
  | string s, b => repeated (string s) b
  | array xs, b => repeated (array xs) b
  | a, string t => repeated (string t) a
  | a, array ys => repeated (array ys) a
  | a, b =>
    match a.number?, b.number? with
    | some m, some n => ofNumber (m.mul n)
    | _, _ => .error (.unsupported "*" a b)

/-! ### Signs and division -/

def numberFor (op : String) (v : Json) : Except JsonError Number :=
  match v.number? with
  | some n => .ok n
  | none => .error (.badOperand op v)

def neg (v : Json) : Except JsonError Json := do .ok (← numberFor "unary -" v).neg.toJson

/-- Does division by the value fail? --/
def isZero (v : Json) : Bool := v.number?.any Number.isZero

def lift {α : Type} (r : Except NumberError α) : Except JsonError α := r.mapError .number

/-- The quotient of the absolute values rounded down, with the sign of a quotient. --/
def quotient (a b : Json) : Except JsonError Number := do
  let m ← numberFor "abs()" a
  let n ← numberFor "abs()" b
  let q ← lift (m.abs.floorDiv n.abs)
  .ok (if m.isNegative = n.isNegative then q else q.neg)

/-- What a division with that quotient leaves. --/
def remainder (a b : Json) : Except JsonError Json := do
  let q ← quotient a b
  sub a (← mul b q.toJson)

end Json
end TypedImp
