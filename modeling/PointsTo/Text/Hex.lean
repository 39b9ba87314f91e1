import PointsTo.Text.Integer

/-!
# Characters by number

A character can be written by its number in hex digits.
-/

namespace PointsTo.Text

/-- The number that hex digits stand for. -/
def hexNumber? (cs : List Char) : Option Nat :=
  cs.foldlM (fun v c => (digitValue? c).map fun d => 16 * v + d) 0

/-- The character of a number; where there is none, it is replaced. -/
def charOf (n : Nat) : Char := if n.isValidChar then Char.ofNat n else Char.ofNat 0xfffd

/-- The character of a number that is written in hex digits, if there is one. -/
def hexChar? (cs : List Char) : Option Char := do
  let n ← hexNumber? cs
  if n.isValidChar then some (Char.ofNat n) else none

end PointsTo.Text
