import PointsTo.ClassTable

/-!
# Supertypes in breadth-first order

`levels` walks a graph level by level: the nodes of a level are the successors of the level before,
in order, without those that were met already. The order in which nodes are met is that of a
breadth-first search, so a node comes after every node that is fewer links away.

Class tables are finite but may have cycles of supertypes. A walk through classes meets a class of
the table at every level but a few, so a number of levels a little above the size of the table is
enough. A walk through superclasses that is still going on after so many steps has no end.
-/

namespace PointsTo

/-- The nodes met within `n` levels, the nodes of `seen` first. -/
def levels {α : Type} [DecidableEq α] (next : α → List α) : Nat → List α → List α → List α
  | 0, _, seen => seen
  | n + 1, frontier, seen =>
    let fresh := (frontier.filter fun a => a ∉ seen).eraseDups
    if fresh.isEmpty then seen else levels next n (fresh.flatMap next) (seen ++ fresh)

namespace ClassTable

/-- A number of steps within which a walk through supertypes has met every class that it can
meet. -/
def depth (t : ClassTable) : Nat := t.size + 3

/-- A class and all its supertypes, in breadth-first order with the superclass before the
interfaces. -/
def ancestors (t : ClassTable) (c : String) : List String :=
  levels (fun c => (t.info c).supertypes) t.depth [c] []

/-- Superclasses from a class upwards, at most `n` of them. -/
def chainUpTo (t : ClassTable) : Nat → String → List String
  | 0, _ => []
  | n + 1, c =>
    c :: match (t.info c).super with
      | some s => t.chainUpTo n s
      | none => []

/-- A class, its superclass, the superclass of that one, and so on. -/
def chain (t : ClassTable) (c : String) : List String := t.chainUpTo t.depth c

/-- Whether the walk from a class through its superclasses has no end. -/
def isEndless (t : ClassTable) (c : String) : Bool := t.depth ≤ (t.chain c).length

/-- The interfaces of a class and of its superclasses with all their superinterfaces, in
breadth-first order. -/
def superinterfaces (t : ClassTable) (c : String) : List String :=
  levels (fun c => (t.info c).interfaces) t.depth
    ((t.chain c).flatMap fun c => (t.info c).interfaces) []

/-- The field of a name that is declared nearest to a type. -/
def fieldByName (t : ClassTable) (type : Ty) (name : String) : Option Field :=
  match type with
  | .cls c => (t.ancestors c).findSome? fun c => t.field? c name
  | _ => none

end ClassTable

end PointsTo
