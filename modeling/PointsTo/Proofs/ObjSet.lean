import Mathlib.Tactic.Common
import PointsTo.ObjSet

/-!
# Members of sets of objects

A set is its list of numbers. The operations are described by their members. The sets that a solver
works with are `Below` the number of objects: no number stands twice, and all of them are objects.
For these sets the number of members is described too.
-/

namespace PointsTo.ObjSet

variable {s u : ObjSet} {o x : Nat} {l : List Nat}

theorem mem_def : o ∈ s ↔ o ∈ s.ids := Iff.rfl

@[simp] theorem not_mem_empty : o ∉ (empty : ObjSet) := List.not_mem_nil

@[simp] theorem mem_singleton : x ∈ singleton o ↔ x = o := List.mem_singleton

theorem isEmpty_iff : s.isEmpty = true ↔ s.ids = [] := List.isEmpty_iff

@[simp] theorem mem_diff : o ∈ s.diff u ↔ o ∈ s ∧ o ∉ u := by
  show o ∈ s.ids.filter _ ↔ _
  rw [List.mem_filter, decide_eq_true_iff]
  rfl

theorem subset_of_isEmpty_diff (h : (s.diff u).isEmpty = true) : ∀ o ∈ s, o ∈ u := by
  intro o ho
  by_contra hnew
  have hmem : o ∈ s.diff u := mem_diff.mpr ⟨ho, hnew⟩
  rw [mem_def, isEmpty_iff.mp h] at hmem
  exact List.not_mem_nil hmem

/-! ## Adding members -/

theorem mem_place : x ∈ place o l ↔ x = o ∨ x ∈ l := by
  induction l with
  | nil => simp [place]
  | cons a as ih =>
    unfold place
    split_ifs with hlt heq
    · exact List.mem_cons
    · subst heq
      simp
    · rw [List.mem_cons, ih, List.mem_cons]
      exact or_left_comm

theorem length_place (h : o ∉ l) : (place o l).length = l.length + 1 := by
  induction l with
  | nil => rfl
  | cons a as ih =>
    obtain ⟨hne, has⟩ := not_or.mp (mt List.mem_cons.mpr h)
    unfold place
    split_ifs
    · rfl
    · rw [List.length_cons, ih has, List.length_cons]

theorem nodup_place (hl : l.Nodup) (h : o ∉ l) : (place o l).Nodup := by
  induction l with
  | nil => simp [place]
  | cons a as ih =>
    obtain ⟨hne, has⟩ := not_or.mp (mt List.mem_cons.mpr h)
    obtain ⟨ha, hnd⟩ := List.nodup_cons.mp hl
    unfold place
    split_ifs
    · exact List.nodup_cons.mpr ⟨h, hl⟩
    · refine List.nodup_cons.mpr ⟨?_, ih hnd has⟩
      rw [mem_place]
      rintro (rfl | h')
      · exact hne rfl
      · exact ha h'

/-- Adding one by one the members of a list. -/
theorem mem_foldl_insert (l : List Nat) : x ∈ l.foldl insert s ↔ x ∈ s ∨ x ∈ l := by
  induction l generalizing s with
  | nil => simp
  | cons a as ih =>
    rw [List.foldl_cons, ih, List.mem_cons, ← or_assoc]
    refine or_congr_left ?_
    show x ∈ place a s.ids ↔ _
    rw [mem_place]
    exact or_comm

@[simp] theorem mem_union : x ∈ s.union u ↔ x ∈ s ∨ x ∈ u := mem_foldl_insert u.ids

/-- Adding one by one numbers that are not members yet, each once. -/
theorem foldl_insert_disjoint (hs : s.ids.Nodup) (hl : l.Nodup) (h : ∀ x ∈ l, x ∉ s) :
    (l.foldl insert s).ids.Nodup ∧ (l.foldl insert s).ids.length = s.ids.length + l.length := by
  induction l generalizing s with
  | nil => exact ⟨hs, rfl⟩
  | cons a as ih =>
    obtain ⟨ha, has⟩ := List.nodup_cons.mp hl
    have hfresh : a ∉ s.ids := h a List.mem_cons_self
    have hrest : ∀ x ∈ as, x ∉ s.insert a := by
      intro x hx hmem
      rcases mem_place.mp hmem with rfl | hmem
      · exact ha hx
      · exact h x (List.mem_cons_of_mem _ hx) hmem
    obtain ⟨hnd, hlen⟩ := ih (s := s.insert a) (nodup_place hs hfresh) has hrest
    refine ⟨hnd, ?_⟩
    rw [List.foldl_cons, hlen, List.length_cons]
    show (place a s.ids).length + _ = _
    rw [length_place hfresh]
    omega

theorem nodup_diff (h : s.ids.Nodup) : (s.diff u).ids.Nodup := h.filter _

/-- Adding what is new adds its number of members. -/
theorem size_union_diff (hs : s.ids.Nodup) (hu : u.ids.Nodup) :
    (s.union (u.diff s)).size = s.size + (u.diff s).size :=
  (foldl_insert_disjoint hs (nodup_diff hu) fun _ hx => (mem_diff.mp hx).2).2

/-! ## Sets of numbers below a bound -/

variable {n n' : Nat}

/-- A set of distinct numbers below `n`. -/
structure Below (n : Nat) (s : ObjSet) : Prop where
  nodup : s.ids.Nodup
  lt : ∀ o ∈ s, o < n

theorem below_empty : (empty : ObjSet).Below n :=
  ⟨List.nodup_nil, fun _ h => absurd h not_mem_empty⟩

theorem below_singleton (h : o < n) : (singleton o).Below n where
  nodup := List.pairwise_singleton _ o
  lt _ hx := mem_singleton.mp hx ▸ h

theorem Below.mono (h : s.Below n) (hn : n ≤ n') : s.Below n' :=
  ⟨h.nodup, fun o ho => Nat.lt_of_lt_of_le (h.lt o ho) hn⟩

theorem Below.filter (h : s.Below n) (p : Nat → Bool) : Below n ⟨s.ids.filter p⟩ :=
  ⟨h.nodup.filter p, fun o ho => h.lt o (List.mem_filter.mp ho).1⟩

theorem Below.diff (h : s.Below n) (u : ObjSet) : (s.diff u).Below n := h.filter _

theorem Below.union_diff (hs : s.Below n) (hu : u.Below n) : (s.union (u.diff s)).Below n where
  nodup := (foldl_insert_disjoint hs.nodup (nodup_diff hu.nodup) fun _ hx => (mem_diff.mp hx).2).1
  lt o ho := by
    rcases mem_union.mp ho with ho | ho
    · exact hs.lt o ho
    · exact hu.lt o (mem_diff.mp ho).1

theorem Below.size_le (h : s.Below n) : s.size ≤ n := by
  have hsub : s.ids ⊆ List.range n := fun o ho => List.mem_range.mpr (h.lt o ho)
  simpa [size] using h.nodup.length_le_of_subset hsub

end PointsTo.ObjSet
