/-!
# Sets of objects

Objects are numbered, and a set of objects is the ascending list of the numbers of its members.
-/

namespace PointsTo

/-- A set of numbered objects, in ascending order. -/
structure ObjSet where
  ids : List Nat := []
  deriving DecidableEq, Repr

namespace ObjSet

/-- The set without members. -/
def empty : ObjSet := {}

/-- The set with one member. -/
def singleton (o : Nat) : ObjSet := ⟨[o]⟩

instance : Membership Nat ObjSet := ⟨fun s o => o ∈ s.ids⟩

instance (o : Nat) (s : ObjSet) : Decidable (o ∈ s) := inferInstanceAs (Decidable (o ∈ s.ids))

/-- Whether a set has no members. -/
def isEmpty (s : ObjSet) : Bool := s.ids.isEmpty

/-- The number of members. -/
def size (s : ObjSet) : Nat := s.ids.length

/-- Puts a number into its place in an ascending list. -/
def place (o : Nat) : List Nat → List Nat
  | [] => [o]
  | a :: as => if o < a then o :: a :: as else if o = a then a :: as else a :: place o as

/-- Adds a member. -/
def insert (s : ObjSet) (o : Nat) : ObjSet := ⟨place o s.ids⟩

/-- The members of either set. -/
def union (s t : ObjSet) : ObjSet := t.ids.foldl insert s

/-- The members of the first set that are not in the second. -/
def diff (s t : ObjSet) : ObjSet := ⟨s.ids.filter fun o => o ∉ t.ids⟩

/-- Whether two sets share a member. -/
def intersects (s t : ObjSet) : Bool := s.ids.any fun o => o ∈ t.ids

/-- `{0 3}`. -/
def text (s : ObjSet) : String := "\x7b" ++ " ".intercalate (s.ids.map toString) ++ "\x7d"

end ObjSet

end PointsTo
