/-!
# Lists in the order of their texts

`sortBy key` puts a list in ascending order of a text computed from each element. Elements with
equal texts keep their order.
-/

namespace PointsTo.Text

variable {α : Type}

/-- Puts an element in front of the first one that should not precede it. -/
def insertWith (le : α → α → Bool) (a : α) : List α → List α
  | [] => [a]
  | b :: bs => if le a b then a :: b :: bs else b :: insertWith le a bs

/-- Stable insertion sort. -/
def sortWith (le : α → α → Bool) (as : List α) : List α := as.foldr (insertWith le) []

/-- Ascending order of `key`, which compares by code points. Each key is computed once. -/
def sortBy (key : α → String) (as : List α) : List α :=
  (sortWith (fun a b => !decide (b.1 < a.1)) (as.map fun a => (key a, a))).map Prod.snd

/-- The texts of a list in ascending order. -/
def sortTexts (ss : List String) : List String := sortBy id ss

end PointsTo.Text
