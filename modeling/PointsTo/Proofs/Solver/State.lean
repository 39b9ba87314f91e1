import PointsTo.Solver.Step
import PointsTo.Proofs.CallGraph
import PointsTo.Proofs.FlowGraph
import PointsTo.Proofs.Memory
import PointsTo.Proofs.Queue

/-!
# What a state of the solver says

A state is described by relations between pointers and objects instead of numbers of nodes: `Holds q
o` (the object has arrived at the pointer), `Pending q o` (it is on its way, in a piece of work),
and `Flows` (there is an edge). A state is `Proper` if its parts fit together: the graph is
well-formed, the memory is faithful, and queued objects are on their way to nodes of the graph.

The basic operations are equations up to the memory and the events told: what `send`, `addEdge` and
`connect` leave behind is written out as a state.
-/

namespace PointsTo.Solver

variable {t : ClassTable} {s : Solver} {q : Pointer} {o : Nat}

/-! ## Relations -/

/-- The object has arrived at the pointer. -/
def Holds (s : Solver) (q : Pointer) (o : Nat) : Prop := s.flow.Holds q o

/-- The object is on its way to the pointer. -/
def Pending (s : Solver) (q : Pointer) (o : Nat) : Prop :=
  ∃ i os, .delta i os ∈ s.queue.toList ∧ s.flow.key? i = some q ∧ o ∈ os

/-- The object has arrived at the pointer or is on its way. -/
def Due (s : Solver) (q : Pointer) (o : Nat) : Prop := s.Holds q o ∨ s.Pending q o

/-- There is an edge between two pointers. -/
def Flows (s : Solver) (kind : EdgeKind) (a b : Pointer) (filter : Option Ty) : Prop :=
  s.flow.Flows kind a b filter

theorem typeOf?_of_getElem? {site : Site} (h : s.heap[o]? = some site) :
    s.typeOf? o = some site.type := by
  unfold typeOf?
  rw [h]
  rfl

/-- Whether an object passes the type filter of an edge. -/
def passes (t : ClassTable) (s : Solver) (filter : Option Ty) (o : Nat) : Bool :=
  match filter with
  | none => true
  | some type => (s.typeOf? o).any fun u => t.isSubtype u type

theorem passes_none : s.passes t none o = true := rfl

theorem passes_some {type u : Ty} (h : s.typeOf? o = some u) :
    s.passes t (some type) o = t.isSubtype u type := by
  unfold passes
  rw [h]
  rfl

theorem passes_congr {s' : Solver} (h : s'.typeOf? o = s.typeOf? o) (filter : Option Ty) :
    s'.passes t filter o = s.passes t filter o := by
  unfold passes
  rw [h]

/-- The method that is to be entered. -/
def entered? : Work → Option MethodId
  | .method m => some m
  | .delta .. => none

/-- The methods whose bodies are still to be entered. -/
def queued (s : Solver) : List MethodId := s.queue.toList.filterMap entered?

theorem mem_queued {m : MethodId} : m ∈ s.queued ↔ .method m ∈ s.queue.toList := by
  unfold queued
  rw [List.mem_filterMap]
  constructor
  · rintro ⟨w, hw, h⟩
    cases w with
    | delta i os => exact absurd h (by simp [entered?])
    | method m' => rwa [← Option.some.inj h]
  · intro h
    exact ⟨_, h, rfl⟩

/-- The method was entered. -/
def Entered (s : Solver) (m : MethodId) : Prop := m ∈ s.calls.reachable ∧ m ∉ s.queued

instance (s : Solver) (m : MethodId) : Decidable (s.Entered m) :=
  inferInstanceAs (Decidable (_ ∧ _))

/-- The parts of the state fit together. -/
structure Proper (t : ClassTable) (s : Solver) : Prop where
  flow : s.flow.WellFormed
  memo : s.memo.Faithful t
  queue : s.queue.InBounds
  heap : ∀ {o o' : Nat} {site : Site}, s.heap[o]? = some site → s.heap[o']? = some site → o = o'
  pts : ∀ i, (s.flow.pts i).Below s.heap.size
  delta : ∀ {i os}, .delta i os ∈ s.queue.toList → i < s.flow.size ∧ os.Below s.heap.size
  indexed : s.calls.Indexed
  callee_reachable : ∀ e ∈ s.calls.edges, e.callee ∈ s.calls.reachable
  queued_reachable : ∀ m ∈ s.queued, m ∈ s.calls.reachable
  queued_nodup : s.queued.Nodup

theorem Proper.lt_of_holds (hs : s.Proper t) (h : s.Holds q o) : o < s.heap.size := by
  obtain ⟨i, -, ho⟩ := h
  exact (hs.pts i).lt o ho

/-! ## Reachable methods -/

theorem addReachable_eq (m : MethodId) : s.addReachable m =
    { s with
      calls := { s.calls with
        reachable := if m ∈ s.calls.reachable then s.calls.reachable else s.calls.reachable ++ [m] }
      queue := s.queue.pushAll (if m ∈ s.calls.reachable then [] else [.method m]) } := by
  unfold addReachable
  by_cases h : m ∈ s.calls.reachable
  · rw [CallGraph.addReachable_of_mem h, if_pos h, if_pos h]
    rfl
  · rw [CallGraph.addReachable_of_not_mem h, if_neg h, if_neg h]
    rfl

/-! ## Objects -/

theorem object_of_findIdx? {site : Site} (h : s.heap.findIdx? (fun x => x = site) = some o) :
    s.object site = (o, s) := by
  unfold object
  rw [h]

theorem object_of_findIdx?_eq_none {site : Site} (h : s.heap.findIdx? (fun x => x = site) = none) :
    s.object site = (s.heap.size, { s with heap := s.heap.push site }) := by
  unfold object
  rw [h]

theorem getElem?_of_findIdx? {site : Site} (h : s.heap.findIdx? (fun x => x = site) = some o) :
    s.heap[o]? = some site := by
  obtain ⟨ho, hsite, -⟩ := Array.findIdx?_eq_some_iff_getElem.mp h
  rw [Array.getElem?_eq_getElem ho]
  exact congrArg some (of_decide_eq_true hsite)

/-- The objects after asking for one: those from before, and the one that was asked for. -/
theorem getElem?_heap_object {site site' : Site} : (s.object site).2.heap[o]? = some site' ↔
    s.heap[o]? = some site' ∨ (o = (s.object site).1 ∧ site' = site) := by
  cases hf : s.heap.findIdx? fun x => x = site with
  | some o' =>
    rw [object_of_findIdx? hf]
    constructor
    · exact Or.inl
    · rintro (h | ⟨rfl, rfl⟩)
      · exact h
      · exact getElem?_of_findIdx? hf
  | none =>
    rw [object_of_findIdx?_eq_none hf]
    dsimp only
    rw [Array.getElem?_push]
    split_ifs with ho
    · rw [Array.getElem?_eq_none (Nat.le_of_eq ho.symm), Option.some.injEq, eq_comm]
      simp [ho]
    · simp [ho]

theorem size_heap_le_object (s : Solver) (site : Site) :
    s.heap.size ≤ (s.object site).2.heap.size := by
  unfold object
  split
  · exact Nat.le_refl _
  · rw [Array.size_push]
    exact Nat.le_succ _

/-- Asking for an object keeps the allocations apart. -/
theorem heap_object_distinct {site site' : Site} {o' : Nat}
    (hs : ∀ {o o' : Nat} {site : Site}, s.heap[o]? = some site → s.heap[o']? = some site → o = o')
    (ho : (s.object site).2.heap[o]? = some site')
    (ho' : (s.object site).2.heap[o']? = some site') :
    o = o' := by
  cases hf : s.heap.findIdx? fun x => x = site with
  | some _ =>
    rw [object_of_findIdx? hf] at ho ho'
    exact hs ho ho'
  | none =>
    have hnew : ∀ n : Nat, s.heap[n]? ≠ some site := by
      intro n hn
      simpa using Array.findIdx?_eq_none_iff.mp hf site (Array.mem_of_getElem? hn)
    rcases getElem?_heap_object.mp ho with h | ⟨rfl, rfl⟩ <;>
      rcases getElem?_heap_object.mp ho' with h' | ⟨rfl, h'⟩
    · exact hs h h'
    · exact absurd (h' ▸ h) (hnew _)
    · exact absurd h' (hnew _)
    · rfl

/-! ## Asking with the memory -/

theorem ask_eq {α : Type} {x : StateM Memo α} {a : α} (hx : Memo.Answers t x a)
    (hm : s.memo.Faithful t) :
    ∃ memo, Memo.Asked t s.memo memo ∧ s.ask x = (a, { s with memo }) := by
  obtain ⟨memo, hrun, hmemo⟩ := hx s.memo hm
  refine ⟨memo, hmemo, ?_⟩
  unfold ask
  rw [hrun]

theorem keepSubtypes_eq (type : Ty) : ∀ (os : List Nat) {s : Solver}, s.memo.Faithful t →
    ∃ memo, Memo.Asked t s.memo memo ∧
      keepSubtypes t type os s = (os.filter (s.passes t (some type)), { s with memo })
  | [], s, _ => ⟨s.memo, .refl, rfl⟩
  | o :: os, s, hm => by
    cases ho : s.typeOf? o with
    | none =>
      obtain ⟨memo, hmemo, hrest⟩ := keepSubtypes_eq type os hm
      refine ⟨memo, hmemo, ?_⟩
      have hp : s.passes t (some type) o = false := by unfold passes; rw [ho]; rfl
      unfold keepSubtypes
      rw [ho]
      dsimp only
      rw [hrest, List.filter_cons, hp]
    | some u =>
      obtain ⟨memo₁, hmemo₁, hask⟩ := ask_eq (Memo.isSubtype_answers t u type) hm
      obtain ⟨memo₂, hmemo₂, hrest⟩ := keepSubtypes_eq type os (s := { s with memo := memo₁ })
        (hmemo₁.faithful hm)
      refine ⟨memo₂, hmemo₁.trans hmemo₂, ?_⟩
      unfold keepSubtypes
      rw [ho]
      dsimp only
      rw [hask]
      dsimp only
      rw [hrest, List.filter_cons, passes_some ho]
      rfl

/-! ## Sending objects -/

/-- The objects of a set that pass the type filter of an edge. -/
def kept (t : ClassTable) (s : Solver) (filter : Option Ty) (os : ObjSet) : ObjSet :=
  ⟨os.ids.filter (s.passes t filter)⟩

theorem mem_kept {filter : Option Ty} {os : ObjSet} :
    o ∈ s.kept t filter os ↔ o ∈ os ∧ s.passes t filter o = true := List.mem_filter

/-- The work of sending objects to a node. -/
def parcel (t : ClassTable) (s : Solver) (j : Nat) (os : ObjSet) (filter : Option Ty) : List Work :=
  if (s.kept t filter os).isEmpty then [] else [.delta j (s.kept t filter os)]

theorem kept_none (os : ObjSet) : s.kept t none os = os := by
  unfold kept
  rw [List.filter_eq_self.mpr fun _ _ => passes_none]

theorem send_eq (hm : s.memo.Faithful t) (j : Nat) (os : ObjSet) (filter : Option Ty) :
    ∃ memo, Memo.Asked t s.memo memo ∧
      s.send t j os filter =
        { s with memo, queue := s.queue.pushAll (s.parcel t j os filter) } := by
  unfold send parcel
  cases filter with
  | none =>
    refine ⟨s.memo, .refl, ?_⟩
    rw [kept_none]
    dsimp only
    split_ifs <;> rfl
  | some type =>
    obtain ⟨memo, hmemo, hkeep⟩ := keepSubtypes_eq type os.ids hm
    refine ⟨memo, hmemo, ?_⟩
    dsimp only
    rw [hkeep]
    show (if (s.kept t (some type) os).isEmpty then _ else _) = _
    split_ifs <;> rfl

/-! ## Adding edges -/

theorem parcel_of_isEmpty {os : ObjSet} (h : os.isEmpty = true) (j : Nat) (filter : Option Ty) :
    s.parcel t j os filter = [] := by
  unfold parcel kept
  rw [ObjSet.isEmpty_iff.mp h]
  rfl

/-- The work of an edge that is asked for: none if the edge is there already. -/
def edgeWork (t : ClassTable) (s : Solver) (kind : EdgeKind) (i j : Nat) (filter : Option Ty) :
    List Work :=
  if (s.flow.addEdge kind i j filter).1 then s.parcel t j (s.flow.pts i) filter else []

theorem edgeWork_eq (kind : EdgeKind) (i j : Nat) (filter : Option Ty) :
    s.edgeWork t kind i j filter =
      if (i, ⟨kind, j, filter⟩) ∈ s.flow.edges then []
      else s.parcel t j (s.flow.pts i) filter := by
  unfold edgeWork
  by_cases h : (i, (⟨kind, j, filter⟩ : FlowEdge)) ∈ s.flow.edges
  · rw [FlowGraph.addEdge_of_mem h, if_pos h]
    rfl
  · rw [if_pos (FlowGraph.addEdge_fresh_iff.mpr h), if_neg h]

theorem addEdge_eq (hm : s.memo.Faithful t) (kind : EdgeKind) (i j : Nat) (filter : Option Ty) :
    ∃ memo events, Memo.Asked t s.memo memo ∧ s.addEdge t kind i j filter =
      { s with
        memo, events
        flow := (s.flow.addEdge kind i j filter).2
        queue := s.queue.pushAll (s.edgeWork t kind i j filter) } := by
  rw [edgeWork_eq]
  unfold addEdge
  by_cases h : (i, (⟨kind, j, filter⟩ : FlowEdge)) ∈ s.flow.edges
  · rw [FlowGraph.addEdge_of_mem h, if_pos h]
    exact ⟨s.memo, s.events, .refl, rfl⟩
  · have hfresh := FlowGraph.addEdge_fresh_iff.mpr h
    have hpts := FlowGraph.pts_addEdge s.flow kind i j filter i
    generalize s.flow.addEdge kind i j filter = g at hfresh hpts ⊢
    obtain ⟨fresh, flow⟩ := g
    subst hfresh
    dsimp only at hpts ⊢
    rw [if_pos rfl, if_neg h, ← hpts]
    split_ifs with hempty
    · refine ⟨s.memo, s.events.push (.flowEdge kind i j), .refl, ?_⟩
      have hpts : (flow.pts i).isEmpty = true := hempty
      rw [parcel_of_isEmpty hpts]
      rfl
    · obtain ⟨memo, hmemo, hsend⟩ :=
        send_eq (s := { s with flow }.tell (.flowEdge kind i j)) hm j (flow.pts i) filter
      exact ⟨memo, s.events.push (.flowEdge kind i j), hmemo, hsend⟩

/-- The graph after the nodes of two pointers were asked for. -/
def flowWith (s : Solver) (a b : Pointer) : FlowGraph Pointer := ((s.flow.intern a).2.intern b).2

theorem key?_flowWith_source (s : Solver) (a b : Pointer) :
    (s.flowWith a b).key? (s.flow.intern a).1 = some a := by
  unfold flowWith
  rw [FlowGraph.key?_intern_of_lt (FlowGraph.intern_lt s.flow a), FlowGraph.key?_intern_self]

theorem key?_flowWith_target (s : Solver) (a b : Pointer) :
    (s.flowWith a b).key? ((s.flow.intern a).2.intern b).1 = some b :=
  FlowGraph.key?_intern_self _ b

theorem flowWith_wellFormed (h : s.flow.WellFormed) (a b : Pointer) : (s.flowWith a b).WellFormed :=
  (h.intern a).intern b

theorem holds_flowWith {a b : Pointer} : (s.flowWith a b).Holds q o ↔ s.Holds q o :=
  FlowGraph.holds_intern.trans FlowGraph.holds_intern

theorem flows_flowWith (h : s.flow.WellFormed) {a b a' b' : Pointer} {kind : EdgeKind}
    {filter : Option Ty} : (s.flowWith a b).Flows kind a' b' filter ↔ s.Flows kind a' b' filter :=
  (h.intern a).flows_intern.trans h.flows_intern

theorem connect_eq (hm : s.memo.Faithful t) (kind : EdgeKind) (a b : Pointer) (filter : Option Ty) :
    ∃ memo events, Memo.Asked t s.memo memo ∧ s.connect t kind a b filter =
      { s with
        memo, events
        flow := ((s.flowWith a b).addEdge kind (s.flow.intern a).1
          ((s.flow.intern a).2.intern b).1 filter).2
        queue :=
          s.queue.pushAll ({ s with flow := s.flowWith a b }.edgeWork t kind (s.flow.intern a).1
          ((s.flow.intern a).2.intern b).1 filter) } :=
  addEdge_eq (s := { s with flow := s.flowWith a b }) hm kind _ _ filter

end PointsTo.Solver
