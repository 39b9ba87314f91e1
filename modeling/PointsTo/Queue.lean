/-!
# A queue that gives back its consumed prefix

`Queue α` keeps its elements in an array behind a `head` index. Taking an element only moves `head`;
once the consumed part is long (at least 64 elements) and makes up at least half of the array, the
array is cut down to the elements that still wait. `toList` is the view in which pushing appends at
the back and popping removes the front.
-/

namespace PointsTo

/-- A first-in first-out queue. The elements before `head` have been taken already. -/
structure Queue (α : Type) where
  elements : Array α := #[]
  head : Nat := 0

namespace Queue

variable {α : Type}

/-- The queue with nothing in it. -/
def empty : Queue α := {}

instance : Inhabited (Queue α) := ⟨empty⟩

/-- The waiting elements, oldest first. -/
def toList (q : Queue α) : List α := q.elements.toList.drop q.head

/-- The number of waiting elements. -/
def size (q : Queue α) : Nat := q.elements.size - q.head

/-- Whether nothing waits. -/
def isEmpty (q : Queue α) : Bool := q.elements.size ≤ q.head

/-- Adds an element at the back. -/
def push (q : Queue α) (a : α) : Queue α := { q with elements := q.elements.push a }

/-- Adds the elements of a list at the back, the first of them first. -/
def pushAll (q : Queue α) (as : List α) : Queue α := as.foldl push q

/-- Drops the consumed part once it has 64 elements and is at least half of the array. -/
def compact (q : Queue α) : Queue α :=
  if 64 ≤ q.head ∧ q.elements.size ≤ 2 * q.head then
    { elements := q.elements.extract q.head q.elements.size, head := 0 }
  else q

/-- Takes the oldest element, if there is one. -/
def pop? (q : Queue α) : Option (α × Queue α) :=
  if h : q.head < q.elements.size then
    some (q.elements[q.head], compact { q with head := q.head + 1 })
  else none

/-- Takes up to `n` elements, and says whether there were as many. -/
def popMany (q : Queue α) : Nat → List α × Bool × Queue α
  | 0 => ([], true, q)
  | n + 1 =>
    match q.pop? with
    | none => ([], false, q)
    | some (a, q) =>
      let (as, enough, q) := q.popMany n
      (a :: as, enough, q)

end Queue

end PointsTo
