/-!
# Blank characters and trimming

The blank characters are those with the Unicode property White_Space. `trim` removes them from both
ends of a text and leaves the inside alone.
-/

namespace PointsTo.Text

/-- Whether a character is white space. -/
def isBlank (c : Char) : Bool :=
  let n := c.toNat
  (0x09 ≤ n && n ≤ 0x0d) || n == 0x20 || n == 0x85 || n == 0xa0 || n == 0x1680 ||
    (0x2000 ≤ n && n ≤ 0x200a) || n == 0x2028 || n == 0x2029 || n == 0x202f || n == 0x205f ||
    n == 0x3000

/-- Removes the blank characters at the front. -/
def trimLeft (cs : List Char) : List Char := cs.dropWhile isBlank

/-- Removes the blank characters at the back. -/
def trimRight (cs : List Char) : List Char := (cs.reverse.dropWhile isBlank).reverse

/-- Removes the blank characters at both ends. -/
def trim (cs : List Char) : List Char := trimRight (trimLeft cs)

end PointsTo.Text
