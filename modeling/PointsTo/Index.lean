/-!
# Lists by key

An index holds a list for each of finitely many keys. Every other key has the empty list.
-/

namespace PointsTo

/-- A list for each key. -/
structure Index (κ α : Type) where
  entries : List (κ × List α) := []
  deriving Repr

namespace Index

variable {κ α : Type} [DecidableEq κ]

/-- The list of a key. -/
def get (i : Index κ α) (k : κ) : List α :=
  ((i.entries.find? fun e => e.1 = k).map Prod.snd).getD []

/-- Adds an element at the end of the list of a key. -/
def add (i : Index κ α) (k : κ) (a : α) : Index κ α := ⟨addTo i.entries⟩
where
  addTo : List (κ × List α) → List (κ × List α)
    | [] => [(k, [a])]
    | e :: es => if e.1 = k then (k, e.2 ++ [a]) :: es else e :: addTo es

omit [DecidableEq κ] in
/-- Puts others in the place of keys and elements. Different keys must stay different. -/
def map {κ' α' : Type} (key : κ → κ') (element : α → α') (i : Index κ α) : Index κ' α' :=
  ⟨i.entries.map fun e => (key e.1, e.2.map element)⟩

end Index

end PointsTo
