/-! Indices that count from either end: from zero on from the front, and below zero from the back, where the
    last place is -1. -/

namespace TypedImp
namespace Index

/-- The place in a row of `size` that an index means. --/
def place? (size : Nat) (i : Int) : Option Nat :=
  let j := if i < 0 then i + size else i
  if 0 ≤ j ∧ j < size then some j.toNat else none

end Index
end TypedImp
