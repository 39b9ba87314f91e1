import PointsTo.ClassTable.Resolve

/-!
# A class table with memory

`Hierarchy` answers the queries of a class table and remembers the answers to subtype questions and
resolutions. An answer that was given once is given again, also when the table has changed in
between; as long as the table stays the same the memory cannot be noticed. Of a search without end
nothing is remembered.
-/

namespace PointsTo

/-- Remembered answers, the latest first. -/
structure Memo where
  subtypes : List ((Ty × Ty) × Bool) := []
  virtuals : List ((Ty × String) × Resolution) := []
  methods : List ((Ty × String) × Resolution) := []

namespace Memo

/-- A subtype question answered with the help of the memory. -/
def isSubtype (t : ClassTable) (sub sup : Ty) : StateM Memo Bool := do
  if sub = sup then return true
  match (← get).subtypes.lookup (sub, sup) with
  | some b => return b
  | none =>
    let b ← match sub, sup with
      | .array a, .array b =>
        if a.isReference && b.isReference then isSubtype t a b else pure false
      | _, _ => pure (t.isSubtype sub sup)
    modify fun m => { m with subtypes := ((sub, sup), b) :: m.subtypes }
    return b

/-- Finds out something that is not remembered, and remembers it if there is an answer. -/
def findOut (x : StateM Memo Target) (put : Resolution → Memo → Memo) : StateM Memo Target := do
  match ← x with
  | .ok r =>
    modify (put r)
    return .ok r
  | .error f => return .error f

/-- The method that a virtual call runs on a receiver of a type, with the help of the memory. -/
def resolveVirtual (t : ClassTable) (type : Ty) (subsig : String) : StateM Memo Target := do
  match (← get).virtuals.lookup (type, subsig) with
  | some r => return .ok r
  | none =>
    findOut (t.selectVirtual (isSubtype t) type subsig) fun r m =>
      { m with virtuals := ((type, subsig), r) :: m.virtuals }

/-- The method that a reference to a type denotes, with the help of the memory. -/
def resolveMethod (t : ClassTable) (type : Ty) (subsig : String) : StateM Memo Target := do
  match (← get).methods.lookup (type, subsig) with
  | some r => return .ok r
  | none =>
    findOut (t.selectMethod (isSubtype t) type subsig) fun r m =>
      { m with methods := ((type, subsig), r) :: m.methods }

end Memo

/-- A class table and the answers that were given about it. -/
structure Hierarchy where
  table : ClassTable
  memo : Memo := {}

namespace Hierarchy

/-- The hierarchy of a program without classes of its own. -/
def initial : Hierarchy := { table := .initial }

/-- Runs a query that uses the memory. -/
def ask {α : Type} (h : Hierarchy) (q : ClassTable → StateM Memo α) : α × Hierarchy :=
  let (a, memo) := (q h.table).run h.memo
  (a, { h with memo })

end Hierarchy

end PointsTo
