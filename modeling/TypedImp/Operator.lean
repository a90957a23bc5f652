/-! Operators. A token or a tree may carry an operator that the language does not have; it stays what it
    was written as, and checking or running it fails. -/

namespace TypedImp

inductive UnaryOp where
  | plus
  | minus
  | other (text : String)
  deriving DecidableEq, Inhabited, Repr

inductive BinaryOp where
  | add
  | sub
  | mul
  | div
  | mod
  | lt
  | le
  | gt
  | ge
  | eq
  | ne
  | and
  | or
  | other (text : String)
  deriving DecidableEq, Inhabited, Repr

namespace UnaryOp

def text : UnaryOp → String
  | plus => "+"
  | minus => "-"
  | other s => s

def ofText : String → UnaryOp
  | "+" => plus
  | "-" => minus
  | s => other s

theorem text_ofText (s : String) : (ofText s).text = s := by
  unfold ofText
  split <;> rfl

end UnaryOp

namespace BinaryOp

def text : BinaryOp → String
  | add => "+"
  | sub => "-"
  | mul => "*"
  | div => "/"
  | mod => "%"
  | lt => "<"
  | le => "<="
  | gt => ">"
  | ge => ">="
  | eq => "=="
  | ne => "!="
  | and => "&&"
  | or => "||"
  | other s => s

def ofText : String → BinaryOp
  | "+" => add
  | "-" => sub
  | "*" => mul
  | "/" => div
  | "%" => mod
  | "<" => lt
  | "<=" => le
  | ">" => gt
  | ">=" => ge
  | "==" => eq
  | "!=" => ne
  | "&&" => and
  | "||" => or
  | s => other s

theorem text_ofText (s : String) : (ofText s).text = s := by
  unfold ofText
  split <;> rfl

/-- The families that the typing rules tell apart. --/
inductive Family where
  | arithmetic
  | relational
  | equality
  | logical
  | unknown
  deriving DecidableEq, Repr

def family : BinaryOp → Family
  | add | sub | mul | div | mod => .arithmetic
  | lt | le | gt | ge => .relational
  | eq | ne => .equality
  | and | or => .logical
  | other _ => .unknown

/-- Does an operator that compares hold of things in the given order? Of things in no order it never does. --/
def admits : BinaryOp → Option Ordering → Bool
  | lt, some o => o = .lt
  | le, some o => o ≠ .gt
  | gt, some o => o = .gt
  | ge, some o => o ≠ .lt
  | _, _ => false

end BinaryOp
end TypedImp
