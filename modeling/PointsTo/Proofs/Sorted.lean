import Mathlib.Data.List.Chain
import Mathlib.Data.List.Sort
import Mathlib.Data.String.Basic
import PointsTo.Text.Sorted

/-!
# Lists in order

`sortWith` is insertion sort. What comes out is a rearrangement of the list in which no element
should come after its neighbour (`isChain_sortWith`), also if the comparison is not transitive.
Elements that are compared by ranks come in the order of their ranks (`pairwise_sortWith`); in
particular `sortBy` puts texts in ascending order (`pairwise_sortBy`).
-/

namespace PointsTo.Text

variable {α : Type} {le : α → α → Bool} {key : α → String} {l : List α} {x : α}

theorem insertWith_eq_orderedInsert (le : α → α → Bool) (a : α) (l : List α) :
    insertWith le a l = l.orderedInsert (fun a b => le a b = true) a := by
  induction l with
  | nil => rfl
  | cons b bs ih => rw [insertWith, List.orderedInsert_cons, ih]

theorem sortWith_eq_insertionSort (le : α → α → Bool) (l : List α) :
    sortWith le l = l.insertionSort fun a b => le a b = true := by
  unfold sortWith List.insertionSort
  congr 1
  funext a l
  exact insertWith_eq_orderedInsert le a l

theorem sortWith_perm (le : α → α → Bool) (l : List α) : (sortWith le l).Perm l := by
  rw [sortWith_eq_insertionSort]
  exact List.perm_insertionSort _ l

/-- Keys may be put beside the elements before they are sorted. -/
theorem map_snd_sortWith {κ : Type} (rank : α → κ) (le : κ → κ → Bool) (l : List α) :
    (sortWith (fun a b => le a.1 b.1) (l.map fun a => (rank a, a))).map Prod.snd =
      sortWith (fun a b => le (rank a) (rank b)) l := by
  rw [sortWith_eq_insertionSort, sortWith_eq_insertionSort, ← List.map_insertionSort
    (fun a b => le (rank a) (rank b) = true) (fun a b : κ × α => le a.1 b.1 = true)
    (fun a => (rank a, a)) l
    fun _ _ _ _ => Iff.rfl, List.map_map]
  exact List.map_id _

/-! ## Neighbours -/

theorem head?_insertWith {a : α} (h : x ∈ (insertWith le a l).head?) : x = a ∨ x ∈ l.head? := by
  cases l with
  | nil => exact Or.inl (by simpa [insertWith, eq_comm] using h)
  | cons b bs =>
    rw [insertWith] at h
    split_ifs at h
    · exact Or.inl (by simpa [eq_comm] using h)
    · exact Or.inr h

section Total

variable (htotal : ∀ a b, le a b = true ∨ le b a = true)

include htotal

/-- An element comes in front of the first one that it may precede, so it may stand behind the one
before that. -/
theorem isChain_insertWith (a : α) (h : l.IsChain fun a b => le a b = true) :
    (insertWith le a l).IsChain fun a b => le a b = true := by
  induction l with
  | nil => exact .singleton a
  | cons b bs ih =>
    rw [insertWith]
    split_ifs with hab
    · exact .cons_cons hab h
    · obtain ⟨hhead, htail⟩ := List.isChain_cons.mp h
      refine List.isChain_cons.mpr ⟨fun c hc => ?_, ih htail⟩
      rcases head?_insertWith hc with rfl | hc
      · exact (htotal c b).resolve_left hab
      · exact hhead c hc

theorem isChain_sortWith (l : List α) : (sortWith le l).IsChain fun a b => le a b = true := by
  unfold sortWith
  induction l with
  | nil => exact .nil
  | cons a l ih => exact isChain_insertWith htotal a ih

end Total

/-- Elements that are compared by their ranks come in the order of their ranks. -/
theorem pairwise_sortWith {κ : Type} [LinearOrder κ] (rank : α → κ)
    (hle : ∀ a b, le a b = true ↔ rank a ≤ rank b)
    (l : List α) : (sortWith le l).Pairwise fun a b => rank a ≤ rank b := by
  have htrans : IsTrans α fun a b => rank a ≤ rank b := ⟨fun _ _ _ => le_trans⟩
  rw [← List.isChain_iff_pairwise]
  refine (isChain_sortWith (fun a b => ?_) l).imp fun a b => (hle a b).mp
  rw [hle, hle]
  exact le_total _ _

/-! ## Ascending texts -/

theorem sortBy_eq_sortWith (key : α → String) (l : List α) :
    sortBy key l = sortWith (fun a b => !decide (key b < key a)) l :=
  map_snd_sortWith key (fun a b => !decide (b < a)) l

theorem sortBy_perm (key : α → String) (l : List α) : (sortBy key l).Perm l := by
  rw [sortBy_eq_sortWith]
  exact sortWith_perm _ l

theorem mem_sortBy : x ∈ sortBy key l ↔ x ∈ l := (sortBy_perm key l).mem_iff

theorem pairwise_sortBy (key : α → String) (l : List α) :
    (sortBy key l).Pairwise fun a b => key a ≤ key b := by
  rw [sortBy_eq_sortWith]
  refine pairwise_sortWith key (fun a b => ?_) l
  rw [Bool.not_eq_true', decide_eq_false_iff_not, not_lt]

end PointsTo.Text
