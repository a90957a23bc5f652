/-! Signed integers of 64 bits as integers of any size that lie in their range. -/

namespace TypedImp
namespace Word

def minimum : Int := -Nat.pow 2 63

def maximum : Int := Nat.pow 2 63 - 1

/-- The number of the range that differs from `n` by a multiple of `2 ^ 64`. --/
def wrap (n : Int) : Int := n.bmod (Nat.pow 2 64)

def inRange (n : Int) : Bool := minimum ≤ n && n ≤ maximum

end Word
end TypedImp
