import Mathlib.Algebra.BigOperators.Group.Finset.Basic
import Mathlib.Algebra.Ring.Nat
import Mathlib.Data.List.Induction
import PointsTo.Proofs.Reach
import PointsTo.Proofs.Solver.Move

/-!
# What was asked of a flow graph

Nodes for pointers, objects for allocations and edges between nodes are asked for in any order, and
may be asked for again. A flow graph and its heap hold what was asked for, each thing once and in
the order in which it was first asked for (`Solver.Records`, kept by `Solver.Records.serve`). The
number of a node or an object is its place in that order, so the same number is answered exactly for
the same pointer or the same allocation (`Solver.served_interned`).
-/

namespace PointsTo

/-! ## First occurrences -/

section Firsts

variable {α β : Type} [DecidableEq β] {f : α → Option β} {l l' : List α} {a : α} {b : β} {i j : Nat}

theorem eraseDups_concat (l : List β) (b : β) :
    (l ++ [b]).eraseDups = if b ∈ l.eraseDups then l.eraseDups else l.eraseDups ++ [b] := by
  rw [List.eraseDups_append, if_congr List.mem_eraseDups rfl rfl]
  split_ifs with hb <;> simp [List.removeAll, List.eraseDups_cons, hb]

/-- What the elements of a list stand for, each thing once and where it first occurs. -/
def firsts (f : α → Option β) (l : List α) : List β := (l.filterMap f).eraseDups

theorem mem_firsts : b ∈ firsts f l ↔
    ∃ a ∈ l, f a = some b := by rw [firsts, List.mem_eraseDups, List.mem_filterMap]

/-- What one more element stands for comes last, unless it is there already. -/
theorem firsts_concat (f : α → Option β) (l : List α) (a : α) :
    firsts f (l ++ [a]) = match f a with
      | none => firsts f l
      | some b => if b ∈ firsts f l then firsts f l else firsts f l ++ [b] := by
  rw [firsts, List.filterMap_append]
  cases ha : f a with
  | none => rw [List.filterMap_cons_none ha, List.filterMap_nil, List.append_nil, firsts]
  | some b => rw [List.filterMap_cons_some ha, List.filterMap_nil, eraseDups_concat, firsts]

/-- Nothing is there twice. -/
theorem firsts_inj (hi : (firsts f l)[i]? = some b) : (firsts f l)[j]? = some b ↔ i = j := by
  rw [← hi, eq_comm]
  exact List.getElem?_inj (List.getElem?_eq_some_iff.mp hi).1 (nodup_eraseDups _)

/-- What is there already keeps its place when more elements follow. -/
theorem getElem?_firsts_append (hi : (firsts f l)[i]? = some b) :
    (firsts f (l ++ l'))[i]? = some b := by
  rw [firsts, List.filterMap_append, List.eraseDups_append, ← firsts,
    List.getElem?_append_left (List.getElem?_eq_some_iff.mp hi).1, hi]

end Firsts

/-! ## Flow graphs -/

namespace FlowGraph

variable {κ : Type} {g : FlowGraph κ} {i j : Nat} {kind : EdgeKind} {filter : Option Ty}

theorem key?_eq_getElem?_keys (g : FlowGraph κ) (i : Nat) : g.key? i = g.keys[i]? := by
  rw [key?, keys, List.getElem?_map, Array.getElem?_toList]

theorem keys_addEdge (g : FlowGraph κ) (kind : EdgeKind) (i j : Nat) (filter : Option Ty) :
    (g.addEdge kind i j filter).2.keys = g.keys := by
  refine List.ext_getElem? fun n => ?_
  rw [← key?_eq_getElem?_keys, ← key?_eq_getElem?_keys, key?_addEdge]

/-- The number of edges is that of all lists of outgoing edges together. -/
theorem WellFormed.numEdges_eq_sum (hg : g.WellFormed) :
    g.numEdges = ((List.range g.size).map fun i => (g.out i).length).sum := by
  have hcount : ∀ i, (g.edges.map Prod.fst : Multiset Nat).count i = (g.out i).length := by
    intro i
    rw [Multiset.coe_count, hg.listed, List.length_map, List.count, List.countP_map,
      List.countP_eq_length_filter]
    rfl
  have hlt : ∀ i ∈ (g.edges.map Prod.fst : Multiset Nat), i ∈ Finset.range g.size := by
    intro i hi
    obtain ⟨⟨i, e⟩, he, rfl⟩ := List.mem_map.mp (Multiset.mem_coe.mp hi)
    exact Finset.mem_range.mpr (lt_of_mem_out (hg.mem_edges_iff.mp he))
  calc g.numEdges = (g.edges.map Prod.fst).length := (List.length_map _).symm
    _ = ∑ i ∈ Finset.range g.size, (g.edges.map Prod.fst : Multiset Nat).count i :=
      (Multiset.sum_count_eq_card hlt).symm
    _ = ∑ i ∈ Finset.range g.size, (g.out i).length := Finset.sum_congr rfl fun i _ => hcount i
    _ = ((List.range g.size).map fun i => (g.out i).length).sum := rfl

section Intern

variable [DecidableEq κ]

theorem keys_intern (g : FlowGraph κ) (k : κ) :
    (g.intern k).2.keys = if k ∈ g.keys then g.keys else g.keys ++ [k] := by
  cases hf : g.find? k with
  | some i =>
    have hk : k ∈ g.keys := List.mem_of_getElem? (key?_eq_getElem?_keys g i ▸ key?_of_find? hf)
    rw [intern_of_find? hf, if_pos hk]
  | none =>
    have hk : k ∉ g.keys := by
      intro hk
      obtain ⟨i, hi⟩ := List.mem_iff_getElem?.mp hk
      exact key?_ne_of_find?_eq_none hf i (key?_eq_getElem?_keys g i ▸ hi)
    rw [intern_of_find?_eq_none hf, if_neg hk, keys, keys, Array.toList_push, List.map_append]
    rfl

end Intern

end FlowGraph

/-! ## Requests -/

/-- What may be asked of a flow graph and the heap beside it: the node of a pointer, the object of
an allocation, an edge between two nodes. -/
inductive GraphRequest
  | pointer (q : Pointer)
  | object (site : Site)
  | edge (kind : EdgeKind) (source target : Nat) (filter : Option Ty)
  deriving DecidableEq

/-- The number of a node, the number of an object, or whether an edge is new. -/
inductive GraphReply
  | node (i : Nat)
  | object (o : Nat)
  | edge (fresh : Bool)
  deriving DecidableEq

namespace GraphRequest

/-- The pointer whose node is asked for. -/
def pointer? : GraphRequest → Option Pointer
  | pointer q => some q
  | _ => none

/-- The allocation whose object is asked for. -/
def site? : GraphRequest → Option Site
  | object site => some site
  | _ => none

/-- The edge that is asked for, with its source. -/
def edge? : GraphRequest → Option (Nat × FlowEdge)
  | edge kind source target filter => some (source, ⟨kind, target, filter⟩)
  | _ => none

/-- The edge that is asked for, if any, is between nodes of the graph. -/
def Within (g : FlowGraph Pointer) : GraphRequest → Prop
  | edge _ source target _ => source < g.size ∧ target < g.size
  | _ => True

instance (g : FlowGraph Pointer) : ∀ r : GraphRequest, Decidable (r.Within g)
  | edge .. => inferInstanceAs (Decidable (_ ∧ _))
  | pointer _ | object _ => isTrue trivial

end GraphRequest

namespace Solver

open GraphRequest

variable {s : Solver} {rs : List GraphRequest} {r : GraphRequest} {q q' : Pointer}
  {site site' : Site} {i : Nat}

/-- Answers a request. -/
def serve (s : Solver) : GraphRequest → GraphReply × Solver
  | .pointer q => (.node (s.pointer q).1, (s.pointer q).2)
  | .object site => (.object (s.object site).1, (s.object site).2)
  | .edge kind source target filter =>
    let (fresh, flow) := s.flow.addEdge kind source target filter
    (.edge fresh, { s with flow })

/-- The state after requests to an empty one. -/
def served (rs : List GraphRequest) : Solver := rs.foldl (fun s r => (s.serve r).2) {}

/-- The answer to a request after others. -/
def reply (before : List GraphRequest) (r : GraphRequest) : GraphReply :=
  ((served before).serve r).1

theorem served_concat (rs : List GraphRequest) (r : GraphRequest) :
    served (rs ++ [r]) = ((served rs).serve r).2 := by
  rw [served, List.foldl_append]
  rfl

/-- Edges are asked for between nodes that are there by then. -/
def AllWithin : Solver → List GraphRequest → Prop
  | _, [] => True
  | s, r :: rs => r.Within s.flow ∧ AllWithin (s.serve r).2 rs

instance : ∀ (s : Solver) (rs : List GraphRequest), Decidable (AllWithin s rs)
  | _, [] => isTrue trivial
  | s, r :: rs => @instDecidableAnd _ _ _ (instDecidableAllWithin (s.serve r).2 rs)

theorem toList_heap_object (s : Solver) (site : Site) :
    (s.object site).2.heap.toList = if site ∈ s.heap.toList then s.heap.toList
      else s.heap.toList ++ [site] := by
  cases hf : s.heap.findIdx? fun x => x = site with
  | some o =>
    have hmem : site ∈ s.heap.toList :=
      Array.mem_toList_iff.mpr (Array.mem_of_getElem? (getElem?_of_findIdx? hf))
    rw [object_of_findIdx? hf, if_pos hmem]
  | none =>
    have hmem : site ∉ s.heap.toList := fun h => by
      simpa using Array.findIdx?_eq_none_iff.mp hf site (Array.mem_toList_iff.mp h)
    rw [object_of_findIdx?_eq_none hf, if_neg hmem, Array.toList_push]

/-- The graph and the heap hold what was asked for. -/
structure Records (rs : List GraphRequest) (s : Solver) : Prop where
  flow : s.flow.WellFormed
  keys : s.flow.keys = firsts pointer? rs
  heap : s.heap.toList = firsts site? rs
  edges : s.flow.edges = firsts edge? rs

theorem records_empty : Records [] {} where
  flow := FlowGraph.wellFormed_empty
  keys := rfl
  heap := rfl
  edges := rfl

namespace Records

variable (h : Records rs s)

include h

theorem serve_pointer (q : Pointer) : Records (rs ++ [.pointer q]) (s.serve (.pointer q)).2 where
  flow := h.flow.intern q
  keys := by
    rw [firsts_concat, ← h.keys]
    exact FlowGraph.keys_intern _ _
  heap := by
    rw [firsts_concat]
    exact h.heap
  edges := by
    rw [firsts_concat]
    exact (FlowGraph.edges_intern _ _).trans h.edges

theorem serve_object (site : Site) : Records (rs ++ [.object site]) (s.serve (.object site)).2 := by
  have hheap := toList_heap_object s site
  obtain ⟨heap, heq⟩ := s.object_frame site
  rw [serve, heq]
  rw [heq, h.heap] at hheap
  refine ⟨h.flow, ?_, ?_, ?_⟩ <;> rw [firsts_concat]
  · exact h.keys
  · exact hheap
  · exact h.edges

theorem serve_edge {kind : EdgeKind} {source target : Nat} {filter : Option Ty}
    (hsource : source < s.flow.size) (htarget : target < s.flow.size) :
    Records (rs ++ [.edge kind source target filter])
      (s.serve (.edge kind source target filter)).2 := by
  refine ⟨h.flow.addEdge hsource htarget, ?_, ?_, ?_⟩
  · rw [firsts_concat]
    exact (FlowGraph.keys_addEdge ..).trans h.keys
  · rw [firsts_concat]
    exact h.heap
  · show (s.flow.addEdge kind source target filter).2.edges = _
    rw [firsts_concat]
    dsimp only [edge?]
    rw [← h.edges]
    split_ifs with hmem
    · rw [FlowGraph.addEdge_of_mem hmem]
    · rw [FlowGraph.addEdge_of_not_mem hmem]

/-- One more request is recorded. -/
theorem serve (hr : r.Within s.flow) : Records (rs ++ [r]) (s.serve r).2 := by
  cases r with
  | pointer q => exact h.serve_pointer q
  | object site => exact h.serve_object site
  | edge => exact h.serve_edge hr.1 hr.2

/-- The number of a node is the place of its pointer. -/
theorem getElem?_pointer (q : Pointer) :
    (firsts pointer? (rs ++ [.pointer q]))[(s.pointer q).1]? = some q := by
  rw [← (h.serve_pointer q).keys, ← FlowGraph.key?_eq_getElem?_keys]
  exact FlowGraph.key?_intern_self _ _

/-- The number of an object is the place of its allocation. -/
theorem getElem?_object (site : Site) :
    (firsts site? (rs ++ [.object site]))[(s.object site).1]? = some site := by
  rw [← (h.serve_object site).heap, Array.getElem?_toList]
  exact getElem?_heap_object.mpr (Or.inr ⟨rfl, rfl⟩)

theorem mem_edges_iff {kind : EdgeKind} {source target : Nat} {filter : Option Ty} :
    (source, ⟨kind, target, filter⟩) ∈ s.flow.edges ↔ .edge kind source target filter ∈ rs := by
  rw [h.edges, mem_firsts]
  constructor
  · rintro ⟨r, hr, heq⟩
    cases r with
    | edge =>
      obtain ⟨rfl, rfl, rfl, rfl⟩ := by simpa [edge?] using heq
      exact hr
    | _ => cases heq
  · intro hr
    exact ⟨_, hr, rfl⟩

end Records

/-- A run of requests is recorded. -/
theorem Records.run {before : List GraphRequest} (h : Records before s) : ∀ {rs}, AllWithin s rs →
    Records (before ++ rs) (rs.foldl (fun s r => (s.serve r).2) s) := by
  intro rs
  induction rs generalizing before s with
  | nil =>
    intro _
    rwa [List.append_nil]
  | cons r rs ih =>
    rintro ⟨hr, hrs⟩
    rw [List.append_cons]
    exact ih (h.serve hr) hrs

theorem allWithin_append {l l' : List GraphRequest} : AllWithin s (l ++ l') ↔
    AllWithin s l ∧ AllWithin (l.foldl (fun s r => (s.serve r).2) s) l' := by
  induction l generalizing s with
  | nil => simp [AllWithin]
  | cons r l ih => simp [AllWithin, ih, and_assoc]

theorem records_served (hrs : AllWithin {} rs) : Records rs (served rs) := records_empty.run hrs

/-- What a request finds: the record of those before it, and itself within the graph. -/
theorem AllWithin.split {before after : List GraphRequest}
    (hrs : AllWithin {} (before ++ r :: after)) :
    Records before (served before) ∧ r.Within (served before).flow :=
  ⟨records_served (allWithin_append.mp hrs).1, (allWithin_append.mp hrs).2.1⟩

section Reply

variable {before after before' after' : List GraphRequest} {kind : EdgeKind} {source target : Nat}
  {filter : Option Ty}

theorem reply_pointer_iff (hrs : AllWithin {} rs) (hr : rs = before ++ .pointer q :: after) :
    reply before (.pointer q) = .node i ↔ (firsts pointer? rs)[i]? = some q := by
  subst hr
  rw [List.append_cons, firsts_inj (getElem?_firsts_append (hrs.split.1.getElem?_pointer q))]
  exact Iff.of_eq (GraphReply.node.injEq _ _)

theorem reply_object_iff (hrs : AllWithin {} rs) (hr : rs = before ++ .object site :: after) :
    reply before (.object site) = .object i ↔ (firsts site? rs)[i]? = some site := by
  subst hr
  rw [List.append_cons, firsts_inj (getElem?_firsts_append (hrs.split.1.getElem?_object site))]
  exact Iff.of_eq (GraphReply.object.injEq _ _)

theorem reply_pointer_eq_iff (hrs : AllWithin {} rs) (hr : rs = before ++ .pointer q :: after)
    (hr' : rs = before' ++ .pointer q' :: after') : reply before (.pointer q) = reply before'
    (.pointer q') ↔ q = q' := by
  have hplace := (reply_pointer_iff hrs hr').mp rfl
  refine (reply_pointer_iff hrs hr).trans ?_
  rw [hplace, Option.some.injEq, eq_comm]

theorem reply_object_eq_iff (hrs : AllWithin {} rs) (hr : rs = before ++ .object site :: after)
    (hr' : rs = before' ++ .object site' :: after') :
    reply before (.object site) = reply before' (.object site') ↔ site = site' := by
  have hplace := (reply_object_iff hrs hr').mp rfl
  refine (reply_object_iff hrs hr).trans ?_
  rw [hplace, Option.some.injEq, eq_comm]

theorem reply_edge_iff (hrs : AllWithin {} (before ++ .edge kind source target filter :: after)) :
    reply before (.edge kind source target filter) = .edge true ↔
      .edge kind source target filter ∉ before := by
  rw [← hrs.split.1.mem_edges_iff, ← FlowGraph.addEdge_fresh_iff]
  exact Iff.of_eq (GraphReply.edge.injEq _ _)

theorem served_edge_of_mem (hrs : AllWithin {} (before ++ .edge kind source target filter :: after))
    (hmem : .edge kind source target filter ∈ before) :
    served (before ++ [.edge kind source target filter]) = served before := by
  rw [served_concat, serve, FlowGraph.addEdge_of_mem (hrs.split.1.mem_edges_iff.mpr hmem)]

end Reply

theorem Records.nodup_out (h : Records rs s) (i : Nat) : (s.flow.out i).Nodup := by
  rw [h.flow.listed, h.edges]
  refine ((nodup_eraseDups _).filter _).map_on fun e he e' he' heq => ?_
  have hsource : e.1 = i := of_decide_eq_true (List.mem_filter.mp he).2
  have hsource' : e'.1 = i := of_decide_eq_true (List.mem_filter.mp he').2
  exact Prod.ext (hsource.trans hsource'.symm) heq

/-- What was asked of a flow graph and its heap is there once, in the order in which it was first
asked for, and is answered accordingly. -/
structure Interned (rs : List GraphRequest) : Prop where
  keys : (served rs).flow.keys = firsts pointer? rs
  heap : (served rs).heap.toList = firsts site? rs
  /-- A pointer is answered with its place. -/
  pointer : ∀ before q after, rs = before ++ .pointer q :: after →
    ∀ i, reply before (.pointer q) = .node i ↔ (firsts pointer? rs)[i]? = some q
  pointer_eq : ∀ before q after before' q' after',
    rs = before ++ .pointer q :: after → rs = before' ++ .pointer q' :: after' →
      (reply before (.pointer q) = reply before' (.pointer q') ↔ q = q')
  /-- An allocation is answered with its place. -/
  object : ∀ before site after, rs = before ++ .object site :: after →
    ∀ o, reply before (.object site) = .object o ↔ (firsts site? rs)[o]? = some site
  object_eq : ∀ before site after before' site' after',
    rs = before ++ .object site :: after → rs = before' ++ .object site' :: after' →
      (reply before (.object site) = reply before' (.object site') ↔ site = site')
  /-- An edge is new if it was not asked for before, and otherwise changes nothing. -/
  edge_new : ∀ before kind source target filter after,
    rs = before ++ .edge kind source target filter :: after →
      (reply before (.edge kind source target filter) = .edge true ↔
        .edge kind source target filter ∉ before)
  edge_again : ∀ before kind source target filter after,
    rs = before ++ .edge kind source target filter :: after →
      .edge kind source target filter ∈ before →
        served (before ++ [.edge kind source target filter]) = served before
  out : ∀ i, (served rs).flow.out i = ((firsts edge? rs).filter fun e => e.1 = i).map Prod.snd
  count_out : ∀ i e, ((served rs).flow.out i).count e =
    if .edge e.kind i e.target e.filter ∈ rs then 1 else 0
  numEdges_eq_sum : (served rs).flow.numEdges =
    ((List.range (served rs).flow.size).map fun i => ((served rs).flow.out i).length).sum
  numEdges : (served rs).flow.numEdges = (firsts edge? rs).length

/-- A flow graph and its heap after any requests. Pointers and objects are numbered in the order in
which they were first asked for, so two requests are answered alike exactly if they have the same
key. Each edge is once among those that leave its source, and is counted once. -/
theorem served_interned (hrs : AllWithin {} rs) : Interned rs := by
  have h := records_served hrs
  exact
    { keys := h.keys
      heap := h.heap
      pointer := fun before q after hr i => reply_pointer_iff hrs hr
      pointer_eq := fun before q after before' q' after' hr hr' => reply_pointer_eq_iff hrs hr hr'
      object := fun before site after hr o => reply_object_iff hrs hr
      object_eq := fun before site after before' site' after' hr hr' =>
        reply_object_eq_iff hrs hr hr'
      edge_new := by
        rintro before kind source target filter after rfl
        exact reply_edge_iff hrs
      edge_again := by
        rintro before kind source target filter after rfl
        exact served_edge_of_mem hrs
      out := fun i => by rw [h.flow.listed, h.edges]
      count_out := fun i e => by
        rw [(h.nodup_out i).count, if_congr
          (h.flow.mem_edges_iff.symm.trans h.mem_edges_iff) rfl rfl]
      numEdges_eq_sum := h.flow.numEdges_eq_sum
      numEdges := by rw [FlowGraph.numEdges, h.edges] }

/-- A variable of a main method. -/
def mainVar (name : String) : Var := ⟨name, ⟨"Main", "void main()"⟩, some (.cls "Object"), 0⟩

/-- An allocation to a variable of a main method. -/
def mainSite (name : String) (serial : Nat) : Site :=
  ⟨⟨⟨"Main", "void main()"⟩, serial⟩, mainVar name, .cls "Object"⟩

/-- A field of the class `Node`. -/
def nextField (static : Bool) : Field := ⟨"Node", "next", some (.cls "Node"), static⟩

/-- Two objects and one pointer of each kind. The edges into the second node differ by their kinds,
their filters and their sources, and some things are asked for twice. -/
def sketch : List GraphRequest :=
  [.pointer (.var (mainVar "x")), .object (mainSite "x" 0), .pointer (.field 0 (nextField false)),
    .edge .instanceLoad 1 0 none, .pointer (.var (mainVar "x")), .object (mainSite "x" 1),
    .edge .cast 1 0 none, .edge .instanceLoad 1 0 (some (.cls "Node")),
      .edge .instanceLoad 1 0 none,
    .object (mainSite "x" 0), .pointer (.static (nextField true)), .pointer (.elem 0),
      .edge .staticLoad 2 0 none,
    .edge .instanceLoad 0 0 none, .edge .cast 1 0 none]

/-- The second request for a variable and that for an edge find what the first ones made. -/
theorem served_interned_sketch : AllWithin {} sketch ∧
    (served sketch).flow.keys = [.var (mainVar "x"), .field 0 (nextField false),
      .static (nextField true), .elem 0] ∧
    (served sketch).heap.toList = [mainSite "x" 0, mainSite "x" 1] ∧
    reply (sketch.take 4) (.pointer (.var (mainVar "x"))) = reply []
      (.pointer (.var (mainVar "x"))) ∧
    reply (sketch.take 8) (.edge .instanceLoad 1 0 none) = .edge false ∧
    served (sketch.take 9) = served (sketch.take 8) ∧
    (served sketch).flow.out 1 =
      [⟨.instanceLoad, 0, none⟩, ⟨.cast, 0, none⟩, ⟨.instanceLoad, 0, some (.cls "Node")⟩] ∧
    (served sketch).flow.numEdges = 5 := by
  have hrs : AllWithin {} sketch := by decide +kernel
  have h := served_interned hrs
  refine ⟨hrs, h.keys.trans (by decide +kernel), h.heap.trans (by decide +kernel), ?_,
    by decide +kernel, ?_, (h.out 1).trans (by decide +kernel),
      h.numEdges.trans (by decide +kernel)⟩
  · exact (h.pointer_eq (sketch.take 4) _ (sketch.drop 5) [] _ sketch.tail rfl rfl).mpr rfl
  · exact h.edge_again (sketch.take 8) _ _ _ _ (sketch.drop 9) rfl (by decide +kernel)

end Solver

end PointsTo
