import PointsTo.FlowGraph
import PointsTo.Proofs.ObjSet

/-!
# What the operations of a flow graph do

A flow graph is used by key: `Holds k o` says that the node of `k` points to `o`, and `Flows` that
there is an edge between the nodes of two keys. In a well-formed graph no two nodes share a key,
every edge ends at a node and is known to its source, so the numbers of the nodes do not matter for
these two relations:

1. asking for the node of a key changes neither of them (`holds_intern`, `flows_intern`);
2. adding an edge adds that edge to the one and nothing to the other (`flows_addEdge`,
   `holds_addEdge`);
3. adding objects to a node adds them to the one and nothing to the other (`holds_addPts`,
   `flows_addPts`).
-/

namespace PointsTo.FlowGraph

variable {κ : Type} {g : FlowGraph κ} {i j : Nat} {k k' a b : κ} {o : Nat} {e : FlowEdge}
  {kind kind' : EdgeKind} {filter filter' : Option Ty}

/-- No two nodes share a key, every edge ends at a node, and each node has its edges in the order of
all edges. -/
structure WellFormed (g : FlowGraph κ) : Prop where
  distinct : ∀ {i j k}, g.key? i = some k → g.key? j = some k → i = j
  target_lt : ∀ {i e}, e ∈ g.out i → e.target < g.size
  listed : ∀ i, g.out i = (g.edges.filter fun x => x.1 = i).map Prod.snd

/-- The node of `k` points to `o`. -/
def Holds (g : FlowGraph κ) (k : κ) (o : Nat) : Prop := ∃ i, g.key? i = some k ∧ o ∈ g.pts i

/-- There is an edge from the node of `a` to the node of `b`. -/
def Flows (g : FlowGraph κ) (kind : EdgeKind) (a b : κ) (filter : Option Ty) : Prop :=
  ∃ i j, g.key? i = some a ∧ g.key? j = some b ∧ ⟨kind, j, filter⟩ ∈ g.out i

theorem wellFormed_empty : (empty : FlowGraph κ).WellFormed where
  distinct h := by simp [key?, empty] at h
  target_lt h := by simp [out, empty] at h
  listed _ := by simp [out, empty]

theorem lt_of_key? (h : g.key? i = some k) : i < g.size := by
  obtain ⟨n, hn, -⟩ := Option.map_eq_some_iff.mp h
  exact (Array.getElem?_eq_some_iff.mp hn).1

theorem exists_key? (h : i < g.size) : ∃ k, g.key? i = some k := by
  cases hn : g.nodes[i]? with
  | none => exact absurd h (Nat.not_lt.mpr (Array.getElem?_eq_none_iff.mp hn))
  | some n => exact ⟨n.key, by rw [key?, hn]; rfl⟩

theorem pts_eq_of_size_le (h : g.size ≤ i) : g.pts i = {} := by
  unfold pts
  rw [Array.getElem?_eq_none h]
  rfl

theorem out_eq_of_size_le (h : g.size ≤ i) : g.out i = [] := by
  unfold out
  rw [Array.getElem?_eq_none h]
  rfl

theorem lt_of_mem_out (h : e ∈ g.out i) : i < g.size := by
  by_contra hi
  rw [out_eq_of_size_le (Nat.le_of_not_lt hi)] at h
  exact List.not_mem_nil h

theorem getElem?_nodes_push (n : FlowNode κ) :
    (g.nodes.push n)[i]? = if i = g.size then some n else g.nodes[i]? := Array.getElem?_push

theorem WellFormed.mem_edges_iff (hg : g.WellFormed) : (i, e) ∈ g.edges ↔ e ∈ g.out i := by
  rw [hg.listed, List.mem_map]
  constructor
  · intro h
    exact ⟨(i, e), List.mem_filter.mpr ⟨h, decide_eq_true rfl⟩, rfl⟩
  · rintro ⟨⟨i', e'⟩, h, rfl⟩
    obtain ⟨h, hi⟩ := List.mem_filter.mp h
    rwa [← of_decide_eq_true hi]

theorem WellFormed.holds_iff (hg : g.WellFormed) (h : g.key? i = some k) :
    g.Holds k o ↔ o ∈ g.pts i := by
  constructor
  · rintro ⟨j, hj, ho⟩
    rwa [hg.distinct hj h] at ho
  · intro ho
    exact ⟨i, h, ho⟩

theorem WellFormed.flows_iff (hg : g.WellFormed) (hi : g.key? i = some a) (hj : g.key? j = some b) :
    g.Flows kind a b filter ↔ ⟨kind, j, filter⟩ ∈ g.out i := by
  constructor
  · rintro ⟨i', j', hi', hj', he⟩
    rwa [hg.distinct hi' hi, hg.distinct hj' hj] at he
  · intro he
    exact ⟨i, j, hi, hj, he⟩

/-! ## Asking for a node -/

section Intern

variable [DecidableEq κ]

theorem key?_of_find? (h : g.find? k = some i) : g.key? i = some k := by
  obtain ⟨hi, hk, -⟩ := Array.findIdx?_eq_some_iff_getElem.mp h
  unfold key?
  rw [Array.getElem?_eq_getElem hi]
  exact congrArg some (of_decide_eq_true hk)

theorem key?_ne_of_find?_eq_none (h : g.find? k = none) (i : Nat) : g.key? i ≠ some k := by
  intro hk
  obtain ⟨n, hn, rfl⟩ := Option.map_eq_some_iff.mp hk
  have hmem : n ∈ g.nodes := Array.mem_of_getElem? hn
  simpa using Array.findIdx?_eq_none_iff.mp h n hmem

theorem WellFormed.find?_eq (hg : g.WellFormed) (h : g.key? i = some k) : g.find? k = some i := by
  cases hf : g.find? k with
  | none => exact absurd h (key?_ne_of_find?_eq_none hf i)
  | some j => rw [hg.distinct (key?_of_find? hf) h]

theorem intern_of_find? (h : g.find? k = some i) : g.intern k = (i, g) := by
  unfold intern
  rw [h]

theorem intern_of_find?_eq_none (h : g.find? k = none) :
    g.intern k = (g.size, { g with nodes := g.nodes.push { key := k } }) := by
  unfold intern
  rw [h]

theorem key?_intern_self (g : FlowGraph κ) (k : κ) :
    (g.intern k).2.key? (g.intern k).1 = some k := by
  cases hf : g.find? k with
  | some i => rw [intern_of_find? hf]; exact key?_of_find? hf
  | none =>
    rw [intern_of_find?_eq_none hf]
    simp [key?, size]

/-- The nodes after asking for one: those from before, and the one that was asked for. -/
theorem key?_intern : (g.intern k).2.key? i = some k' ↔
    g.key? i = some k' ∨ (i = (g.intern k).1 ∧ k' = k) := by
  constructor
  · intro h
    cases hf : g.find? k with
    | some j =>
      rw [intern_of_find? hf] at h
      exact Or.inl h
    | none =>
      rw [intern_of_find?_eq_none hf] at h ⊢
      unfold key? at h
      rw [getElem?_nodes_push] at h
      split_ifs at h with hi
      · exact Or.inr ⟨hi, (Option.some.inj h).symm⟩
      · exact Or.inl h
  · rintro (h | ⟨rfl, rfl⟩)
    · cases hf : g.find? k with
      | some j => rwa [intern_of_find? hf]
      | none =>
        rw [intern_of_find?_eq_none hf]
        unfold key? at h ⊢
        have hne : i ≠ g.size := Nat.ne_of_lt (lt_of_key? h)
        rwa [getElem?_nodes_push, if_neg hne]
    · exact key?_intern_self g k'

theorem key?_intern_of_lt (h : i < g.size) (k : κ) : (g.intern k).2.key? i = g.key? i := by
  obtain ⟨k', hk'⟩ := exists_key? h
  rw [hk', key?_intern]
  exact Or.inl hk'

theorem intern_lt (g : FlowGraph κ) (k : κ) : (g.intern k).1 < (g.intern k).2.size :=
  lt_of_key? (key?_intern_self g k)

@[simp] theorem pts_intern (g : FlowGraph κ) (k : κ) (i : Nat) :
    (g.intern k).2.pts i = g.pts i := by
  cases hf : g.find? k with
  | some j => rw [intern_of_find? hf]
  | none =>
    rw [intern_of_find?_eq_none hf]
    by_cases hi : i = g.size
    · rw [pts_eq_of_size_le (Nat.le_of_eq hi.symm)]
      unfold pts
      rw [getElem?_nodes_push, if_pos hi]
      rfl
    · unfold pts
      rw [getElem?_nodes_push, if_neg hi]

@[simp] theorem out_intern (g : FlowGraph κ) (k : κ) (i : Nat) :
    (g.intern k).2.out i = g.out i := by
  cases hf : g.find? k with
  | some j => rw [intern_of_find? hf]
  | none =>
    rw [intern_of_find?_eq_none hf]
    by_cases hi : i = g.size
    · rw [out_eq_of_size_le (Nat.le_of_eq hi.symm)]
      unfold out
      rw [getElem?_nodes_push, if_pos hi]
      rfl
    · unfold out
      rw [getElem?_nodes_push, if_neg hi]

@[simp] theorem edges_intern (g : FlowGraph κ) (k : κ) : (g.intern k).2.edges = g.edges := by
  cases hf : g.find? k with
  | some j => rw [intern_of_find? hf]
  | none => rw [intern_of_find?_eq_none hf]

theorem size_le_intern (g : FlowGraph κ) (k : κ) : g.size ≤ (g.intern k).2.size := by
  cases hf : g.find? k with
  | some j =>
    refine Nat.le_of_eq ?_
    rw [intern_of_find? hf]
  | none =>
    rw [intern_of_find?_eq_none hf]
    show g.nodes.size ≤ (g.nodes.push _).size
    rw [Array.size_push]
    exact Nat.le_succ _

theorem WellFormed.intern (hg : g.WellFormed) (k : κ) : (g.intern k).2.WellFormed where
  distinct := by
    intro i j k' hi hj
    rcases key?_intern.mp hi with hi | ⟨rfl, rfl⟩ <;> rcases key?_intern.mp hj with hj | ⟨rfl, h⟩
    · exact hg.distinct hi hj
    · rw [h] at hi
      rw [intern_of_find? (hg.find?_eq hi)]
    · rw [intern_of_find? (hg.find?_eq hj)]
    · rfl
  target_lt := by
    intro i e he
    rw [out_intern] at he
    exact Nat.lt_of_lt_of_le (hg.target_lt he) (size_le_intern g k)
  listed i := by rw [out_intern, edges_intern, hg.listed]

theorem holds_intern : (g.intern k).2.Holds a o ↔ g.Holds a o := by
  unfold Holds
  simp only [pts_intern]
  constructor
  · rintro ⟨i, hi, ho⟩
    rcases key?_intern.mp hi with hi | ⟨rfl, rfl⟩
    · exact ⟨i, hi, ho⟩
    · -- a node that was not there before points to nothing
      cases hf : g.find? a with
      | some j =>
        rw [intern_of_find? hf] at ho
        exact ⟨j, key?_of_find? hf, ho⟩
      | none =>
        rw [intern_of_find?_eq_none hf, pts_eq_of_size_le (Nat.le_refl _)] at ho
        exact absurd ho ObjSet.not_mem_empty
  · rintro ⟨i, hi, ho⟩
    exact ⟨i, key?_intern.mpr (Or.inl hi), ho⟩

theorem WellFormed.flows_intern (hg : g.WellFormed) :
    (g.intern k).2.Flows kind a b filter ↔ g.Flows kind a b filter := by
  unfold Flows
  simp only [out_intern]
  constructor
  · rintro ⟨i, j, hi, hj, he⟩
    obtain ⟨a', ha'⟩ := exists_key? (lt_of_mem_out he)
    obtain ⟨b', hb'⟩ := exists_key? (hg.target_lt he)
    have ha : some a = some a' := by rw [← hi, key?_intern.mpr (Or.inl ha')]
    have hb : some b = some b' := by rw [← hj, key?_intern.mpr (Or.inl hb')]
    exact ⟨i, j, ha ▸ ha', hb ▸ hb', he⟩
  · rintro ⟨i, j, hi, hj, he⟩
    exact ⟨i, j, key?_intern.mpr (Or.inl hi), key?_intern.mpr (Or.inl hj), he⟩

end Intern

/-! ## Adding an edge -/

theorem addEdge_of_mem (h : (i, ⟨kind, j, filter⟩) ∈ g.edges) :
    g.addEdge kind i j filter = (false, g) := if_pos h

theorem addEdge_of_not_mem (h : (i, ⟨kind, j, filter⟩) ∉ g.edges) :
    g.addEdge kind i j filter = (true,
      { nodes := g.nodes.modify i fun n => { n with out := n.out ++ [⟨kind, j, filter⟩] }
        edges := g.edges ++ [(i, ⟨kind, j, filter⟩)] }) := if_neg h

theorem addEdge_fresh_iff :
    (g.addEdge kind i j filter).1 = true ↔ (i, ⟨kind, j, filter⟩) ∉ g.edges := by
  by_cases h : (i, (⟨kind, j, filter⟩ : FlowEdge)) ∈ g.edges
  · rw [addEdge_of_mem h]
    simp [h]
  · rw [addEdge_of_not_mem h]
    simp [h]

section AddEdge

variable (g : FlowGraph κ) (kind : EdgeKind) (i j : Nat) (filter : Option Ty) (n : Nat)

@[simp] theorem size_addEdge : (g.addEdge kind i j filter).2.size = g.size := by
  by_cases h : (i, (⟨kind, j, filter⟩ : FlowEdge)) ∈ g.edges
  · rw [addEdge_of_mem h]
  · rw [addEdge_of_not_mem h]
    exact Array.size_modify

@[simp] theorem key?_addEdge : (g.addEdge kind i j filter).2.key? n = g.key? n := by
  by_cases h : (i, (⟨kind, j, filter⟩ : FlowEdge)) ∈ g.edges
  · rw [addEdge_of_mem h]
  · rw [addEdge_of_not_mem h]
    unfold key?
    rw [Array.getElem?_modify]
    split_ifs with hn
    · subst hn
      cases g.nodes[i]? <;> rfl
    · rfl

@[simp] theorem pts_addEdge : (g.addEdge kind i j filter).2.pts n = g.pts n := by
  by_cases h : (i, (⟨kind, j, filter⟩ : FlowEdge)) ∈ g.edges
  · rw [addEdge_of_mem h]
  · rw [addEdge_of_not_mem h]
    unfold pts
    rw [Array.getElem?_modify]
    split_ifs with hn
    · subst hn
      cases g.nodes[i]? <;> rfl
    · rfl

end AddEdge

theorem out_addEdge_of_ne {n : Nat} (hn : n ≠ i) :
    (g.addEdge kind i j filter).2.out n = g.out n := by
  by_cases h : (i, (⟨kind, j, filter⟩ : FlowEdge)) ∈ g.edges
  · rw [addEdge_of_mem h]
  · rw [addEdge_of_not_mem h]
    unfold out
    rw [Array.getElem?_modify, if_neg (Ne.symm hn)]

/-- A new edge comes last among those of its source. -/
theorem out_addEdge_self (hi : i < g.size) (h : (i, ⟨kind, j, filter⟩) ∉ g.edges) :
    (g.addEdge kind i j filter).2.out i = g.out i ++ [⟨kind, j, filter⟩] := by
  rw [addEdge_of_not_mem h]
  unfold out
  rw [Array.getElem?_modify, if_pos rfl, Array.getElem?_eq_getElem hi]
  rfl

theorem mem_out_addEdge_of_mem {n : Nat} (he : e ∈ g.out n) :
    e ∈ (g.addEdge kind i j filter).2.out n := by
  by_cases h : (i, (⟨kind, j, filter⟩ : FlowEdge)) ∈ g.edges
  · rwa [addEdge_of_mem h]
  by_cases hn : n = i
  · subst hn
    rw [out_addEdge_self (lt_of_mem_out he) h]
    exact List.mem_append_left _ he
  · rwa [out_addEdge_of_ne hn]

theorem mem_out_of_addEdge {n : Nat} (hi : i < g.size)
    (he : e ∈ (g.addEdge kind i j filter).2.out n) :
    e ∈ g.out n ∨ (n = i ∧ e = ⟨kind, j, filter⟩) := by
  by_cases h : (i, (⟨kind, j, filter⟩ : FlowEdge)) ∈ g.edges
  · rw [addEdge_of_mem h] at he
    exact Or.inl he
  by_cases hn : n = i
  · subst hn
    rw [out_addEdge_self hi h] at he
    exact (List.mem_append.mp he).imp_right fun he => ⟨rfl, List.mem_singleton.mp he⟩
  · rw [out_addEdge_of_ne hn] at he
    exact Or.inl he

theorem WellFormed.mem_out_addEdge (hg : g.WellFormed) {n : Nat} (hi : i < g.size) :
    e ∈ (g.addEdge kind i j filter).2.out n ↔
      e ∈ g.out n ∨ (n = i ∧ e = ⟨kind, j, filter⟩) := by
  refine ⟨mem_out_of_addEdge hi, ?_⟩
  rintro (he | ⟨rfl, rfl⟩)
  · exact mem_out_addEdge_of_mem he
  · by_cases h : (n, (⟨kind, j, filter⟩ : FlowEdge)) ∈ g.edges
    · rw [addEdge_of_mem h]
      exact hg.mem_edges_iff.mp h
    · rw [out_addEdge_self hi h]
      exact List.mem_append_right _ (List.mem_singleton_self _)

theorem WellFormed.addEdge (hg : g.WellFormed) (hi : i < g.size) (hj : j < g.size) :
    (g.addEdge kind i j filter).2.WellFormed where
  distinct := by
    intro n n' k h h'
    rw [key?_addEdge] at h h'
    exact hg.distinct h h'
  target_lt := by
    intro n e he
    rw [size_addEdge]
    rcases mem_out_of_addEdge hi he with he | ⟨-, rfl⟩
    · exact hg.target_lt he
    · exact hj
  listed n := by
    by_cases h : (i, (⟨kind, j, filter⟩ : FlowEdge)) ∈ g.edges
    · rw [addEdge_of_mem h, hg.listed]
    by_cases hn : n = i
    · subst hn
      rw [out_addEdge_self hi h, addEdge_of_not_mem h, hg.listed]
      simp
    · rw [out_addEdge_of_ne hn, addEdge_of_not_mem h, hg.listed]
      simp [Ne.symm hn]

theorem holds_addEdge : (g.addEdge kind i j filter).2.Holds k o ↔ g.Holds k o := by
  unfold Holds
  simp only [key?_addEdge, pts_addEdge]

theorem WellFormed.flows_addEdge (hg : g.WellFormed) (hi : g.key? i = some a)
    (hj : g.key? j = some b) :
    (g.addEdge kind i j filter).2.Flows kind' k k' filter' ↔
      g.Flows kind' k k' filter' ∨ (kind' = kind ∧ k = a ∧ k' = b ∧ filter' = filter) := by
  unfold Flows
  simp only [key?_addEdge, hg.mem_out_addEdge (lt_of_key? hi)]
  constructor
  · rintro ⟨n, n', hn, hn', he | ⟨rfl, he⟩⟩
    · exact Or.inl ⟨n, n', hn, hn', he⟩
    · obtain ⟨rfl, rfl, rfl⟩ := FlowEdge.mk.inj he
      rw [hi] at hn
      rw [hj] at hn'
      exact Or.inr ⟨rfl, (Option.some.inj hn).symm, (Option.some.inj hn').symm, rfl⟩
  · rintro (⟨n, n', hn, hn', he⟩ | ⟨rfl, rfl, rfl, rfl⟩)
    · exact ⟨n, n', hn, hn', Or.inl he⟩
    · exact ⟨i, j, hi, hj, Or.inr ⟨rfl, rfl⟩⟩

/-! ## Adding objects -/

section AddPts

variable (g : FlowGraph κ) (i : Nat) (s : ObjSet) (n : Nat)

@[simp] theorem size_addPts : (g.addPts i s).size = g.size := Array.size_modify

@[simp] theorem key?_addPts : (g.addPts i s).key? n = g.key? n := by
  unfold key? addPts
  rw [Array.getElem?_modify]
  split_ifs with hn
  · subst hn
    cases g.nodes[i]? <;> rfl
  · rfl

@[simp] theorem out_addPts : (g.addPts i s).out n = g.out n := by
  unfold out addPts
  rw [Array.getElem?_modify]
  split_ifs with hn
  · subst hn
    cases g.nodes[i]? <;> rfl
  · rfl

end AddPts

variable {s : ObjSet}

theorem pts_addPts_self (hi : i < g.size) : (g.addPts i s).pts i = (g.pts i).union s := by
  unfold pts addPts
  rw [Array.getElem?_modify, if_pos rfl, Array.getElem?_eq_getElem hi]
  rfl

theorem pts_addPts_of_ne {n : Nat} (hn : n ≠ i) : (g.addPts i s).pts n = g.pts n := by
  unfold pts addPts
  rw [Array.getElem?_modify, if_neg (Ne.symm hn)]

theorem WellFormed.addPts (hg : g.WellFormed) (i : Nat) (s : ObjSet) :
    (g.addPts i s).WellFormed where
  distinct := by
    intro n n' k h h'
    rw [key?_addPts] at h h'
    exact hg.distinct h h'
  target_lt := by
    intro n e he
    rw [out_addPts] at he
    rw [size_addPts]
    exact hg.target_lt he
  listed n := (out_addPts g i s n).trans (hg.listed n)

theorem WellFormed.intern_addPts [DecidableEq κ] (hg : g.WellFormed) (i : Nat)
    (s : ObjSet) (k : κ) :
    ((g.addPts i s).intern k).1 = (g.intern k).1 := by
  cases h : g.find? k with
  | some n =>
    have h' := (hg.addPts i s).find?_eq ((key?_addPts ..).trans (key?_of_find? h))
    rw [intern_of_find? h, intern_of_find? h']
  | none =>
    cases h' : (g.addPts i s).find? k with
    | some n =>
      exact absurd ((key?_addPts ..).symm.trans (key?_of_find? h')) (key?_ne_of_find?_eq_none h n)
    | none => rw [intern_of_find?_eq_none h, intern_of_find?_eq_none h', size_addPts]

theorem flows_addPts : (g.addPts i s).Flows kind a b filter ↔ g.Flows kind a b filter := by
  unfold Flows
  simp only [key?_addPts, out_addPts]

theorem holds_addPts (hi : g.key? i = some a) :
    (g.addPts i s).Holds k o ↔ g.Holds k o ∨ (k = a ∧ o ∈ s) := by
  have hlt := lt_of_key? hi
  unfold Holds
  simp only [key?_addPts]
  constructor
  · rintro ⟨n, hn, ho⟩
    by_cases h : n = i
    · subst h
      rw [pts_addPts_self hlt, ObjSet.mem_union] at ho
      rw [hi] at hn
      rcases ho with ho | ho
      · exact Or.inl ⟨n, hn ▸ hi, ho⟩
      · exact Or.inr ⟨(Option.some.inj hn).symm, ho⟩
    · rw [pts_addPts_of_ne h] at ho
      exact Or.inl ⟨n, hn, ho⟩
  · rintro (⟨n, hn, ho⟩ | ⟨rfl, ho⟩)
    · refine ⟨n, hn, ?_⟩
      by_cases h : n = i
      · subst h
        rw [pts_addPts_self hlt, ObjSet.mem_union]
        exact Or.inl ho
      · rwa [pts_addPts_of_ne h]
    · refine ⟨i, hi, ?_⟩
      rw [pts_addPts_self hlt, ObjSet.mem_union]
      exact Or.inr ho

end PointsTo.FlowGraph
