import Mathlib.Data.List.Basic
import Mathlib.Tactic.Common
import PointsTo.CallGraph

/-!
# What the operations of a call graph do

Methods become reachable and edges are added, each at most once; nothing is ever taken away. The two
indexes of a call graph agree with its edges (`CallGraph.Indexed`), and a new edge keeps it so.
-/

namespace PointsTo

namespace Index

variable {κ α : Type} [DecidableEq κ]

theorem get_add (i : Index κ α) (k : κ) (a : α) (x : κ) :
    (i.add k a).get x = if x = k then i.get k ++ [a] else i.get x := by
  obtain ⟨entries⟩ := i
  unfold get add
  dsimp only
  induction entries with
  | nil =>
    by_cases h : k = x
    · simp [add.addTo, h]
    · simp [add.addTo, h, Ne.symm h]
  | cons e es ih =>
    unfold add.addTo
    by_cases he : e.1 = k
    · by_cases h : x = k
      · simp [he, h]
      · simp [he, h, Ne.symm h]
    · by_cases h : x = e.1
      · simp [he, h]
      · rw [if_neg he, List.find?_cons_of_neg (by simpa using Ne.symm h), ih,
          List.find?_cons_of_neg (by simpa using he),
          List.find?_cons_of_neg (by simpa using Ne.symm h)]

end Index

namespace CallGraph

variable {σ μ : Type} [DecidableEq μ] {g : CallGraph σ μ} {s : σ} {m : μ} {kind : CallKind}

theorem addReachable_of_mem (h : m ∈ g.reachable) : g.addReachable m = (false, g) := if_pos h

theorem addReachable_of_not_mem (h : m ∉ g.reachable) :
    g.addReachable m = (true, { g with reachable := g.reachable ++ [m] }) := if_neg h

theorem mem_ite_append {ms : List μ} {x : μ} :
    x ∈ (if m ∈ ms then ms else ms ++ [m]) ↔ x ∈ ms ∨ x = m := by
  split_ifs with h
  · exact ⟨Or.inl, fun hx => hx.elim id fun heq => heq ▸ h⟩
  · rw [List.mem_append, List.mem_singleton]

variable [DecidableEq σ]

/-! ## Indexes -/

/-- The indexes hold what the edges say, in the same order. -/
structure Indexed (g : CallGraph σ μ) : Prop where
  targets : ∀ s, g.targets.get s = (g.edges.filter fun e => e.site = s).map
    fun e => (e.callee, e.kind)
  sites : ∀ m, g.sites.get m = (g.edges.filter fun e => e.callee = m).map CallEdge.site

theorem indexed_empty : ({} : CallGraph σ μ).Indexed := ⟨fun _ => rfl, fun _ => rfl⟩

namespace Indexed

variable (h : g.Indexed)

include h

theorem congr {g' : CallGraph σ μ} (hedges : g'.edges = g.edges) (htargets : g'.targets = g.targets)
    (hsites : g'.sites = g.sites) : g'.Indexed := by
  constructor
  · rw [hedges, htargets]
    exact h.targets
  · rw [hedges, hsites]
    exact h.sites

theorem mem_targets_iff : (m, kind) ∈ g.targets.get s ↔ ⟨s, m, kind⟩ ∈ g.edges := by
  rw [h.targets, List.mem_map]
  constructor
  · rintro ⟨⟨s', m', kind'⟩, he, heq⟩
    obtain ⟨hmem, hsite⟩ := List.mem_filter.mp he
    obtain ⟨rfl, rfl⟩ := Prod.mk.inj heq
    obtain rfl : s' = s := of_decide_eq_true hsite
    exact hmem
  · exact fun he => ⟨_, List.mem_filter.mpr ⟨he, decide_eq_true rfl⟩, rfl⟩

theorem mem_callees_iff : m ∈ g.callees s ↔ ∃ e ∈ g.edges, e.site = s ∧ e.callee = m := by
  unfold callees
  rw [h.targets]
  simp [and_assoc]

theorem mem_callers_iff : s ∈ g.callers m ↔ ∃ e ∈ g.edges, e.site = s ∧ e.callee = m := by
  unfold callers
  rw [h.sites]
  simp [and_assoc, and_comm]

end Indexed

theorem mem_callees_iff_isSome : m ∈ g.callees s ↔ (g.edgeKind? s m).isSome := by
  unfold callees edgeKind?
  rw [List.mem_map]
  generalize g.targets.get s = l
  induction l with
  | nil => simp
  | cons x l ih =>
    by_cases hx : m = x.1
    · simp [hx]
    · simp [hx, ih, Ne.symm hx]

theorem addEdge_of_isSome (h : (g.edgeKind? s m).isSome) : g.addEdge s m kind = (false, g) :=
  if_pos h

/-- The graph after a new edge was put into the list and both indexes. -/
def withEdge (g : CallGraph σ μ) (s : σ) (m : μ) (kind : CallKind) : CallGraph σ μ :=
  { g with
    edges := g.edges ++ [⟨s, m, kind⟩]
    targets := g.targets.add s (m, kind)
    sites := if s ∈ g.sites.get m then g.sites else g.sites.add m s }

theorem addEdge_of_not_isSome (h : ¬ (g.edgeKind? s m).isSome) :
    g.addEdge s m kind = (true, g.withEdge s m kind) := if_neg h

theorem edges_withEdge (g : CallGraph σ μ) (s : σ) (m : μ) (kind : CallKind) :
    (g.withEdge s m kind).edges = g.edges ++ [⟨s, m, kind⟩] := rfl

theorem filter_concat {α : Type} (p : α → Bool) (l : List α) (a : α) :
    (l ++ [a]).filter p = if p a then l.filter p ++ [a] else l.filter p := by
  rw [List.filter_append, List.filter_singleton]
  cases p a <;> simp

namespace Indexed

variable (h : g.Indexed)

include h

theorem edgeKind?_isSome_iff :
    (g.edgeKind? s m).isSome ↔ ∃ e ∈ g.edges, e.site = s ∧ e.callee = m :=
  mem_callees_iff_isSome.symm.trans h.mem_callees_iff

theorem mem_of_edgeKind? (hkind : g.edgeKind? s m = some kind) : ⟨s, m, kind⟩ ∈ g.edges := by
  refine h.mem_targets_iff.mp ?_
  obtain ⟨before, after, heq, -⟩ := List.lookup_eq_some_iff.mp hkind
  rw [heq]
  exact List.mem_append_right _ List.mem_cons_self

/-- A new edge goes to the end of its list in each index. The site is not yet among those of the
callee, because the indexes agreed before. -/
theorem withEdge (hnew : ¬ (g.edgeKind? s m).isSome) : (g.withEdge s m kind).Indexed where
  targets x := by
    show (g.targets.add s (m, kind)).get x = _
    rw [Index.get_add, edges_withEdge, filter_concat]
    by_cases hx : x = s
    · subst hx
      simp [h.targets]
    · simp [h.targets, hx, Ne.symm hx]
  sites x := by
    have hsite : s ∉ g.sites.get m :=
      fun hs => hnew (h.edgeKind?_isSome_iff.mpr (h.mem_callers_iff.mp hs))
    show (if s ∈ g.sites.get m then g.sites else g.sites.add m s).get x = _
    rw [if_neg hsite, Index.get_add, edges_withEdge, filter_concat]
    by_cases hx : x = m
    · subst hx
      simp [h.sites]
    · simp [h.sites, hx, Ne.symm hx]

end Indexed

end CallGraph

end PointsTo
