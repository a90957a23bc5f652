/-! Blank characters: the ones that trimming removes. -/

namespace TypedImp
namespace Text

/-- Tab to carriage return, the four information separators, space, next line, and the spaces and
    separators of Unicode. --/
def isBlank (c : Char) : Bool :=
  let n := c.toNat
  (9 ≤ n && n ≤ 13) || (28 ≤ n && n ≤ 32) || n == 0x85 || n == 0xa0 || n == 0x1680 ||
    (0x2000 ≤ n && n ≤ 0x200a) || n == 0x2028 || n == 0x2029 || n == 0x202f || n == 0x205f || n == 0x3000

/-- Removes what `p` holds of from both ends. --/
def trimBy (p : Char → Bool) (cs : List Char) : List Char :=
  ((cs.dropWhile p).reverse.dropWhile p).reverse

/-- Removes the blanks at both ends. --/
def trim (cs : List Char) : List Char := trimBy isBlank cs

end Text
end TypedImp
