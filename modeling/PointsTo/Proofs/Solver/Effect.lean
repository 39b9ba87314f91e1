import PointsTo.Proofs.Solver.State

/-!
# The effects of statements

Whatever the solver does with a statement comes down to a few kinds of effects on its state: a node
or an edge is added, an object is sent to a pointer, a statement is put to wait, a call edge is
added, something is noted. `Solver.apply` is one effect. Once a fault has occurred an effect does
nothing.

1. `apply_eq` is the state after an effect, up to the memory and the events told.
2. `Proper.apply`: the parts of the state go on fitting together.
3. What an effect does to each relation of a state (`holds_apply`, `flows_apply`, `due_apply`,
   `mem_waiting_apply`, …). Everything about runs of the solver rests on these lemmas.
-/

namespace PointsTo

/-- What a statement may do to the state of the solver. -/
inductive Effect
  | node (q : Pointer)
  | edge (kind : EdgeKind) (a b : Pointer) (filter : Option Ty)
  /-- An object is sent to a pointer. -/
  | arrive (q : Pointer) (o : Nat)
  /-- The object of an allocation is sent to the variable of the allocation. -/
  | alloc (site : Site)
  | wait (i : Instr)
  /-- The target of a call is looked for, and the answers met on the way are remembered. -/
  | ask (c : Call) (recv : Option Ty)
  /-- A call edge; the callee becomes reachable. -/
  | call (c : Invocation) (callee : MethodId)
  | unresolved (site : Stmt) (recv : Option Nat) (e : ResolutionError)
  | fault (f : Fault)

/-- An effect concerns objects with numbers below `n` only. -/
def Effect.Below (n : Nat) : Effect → Prop
  | arrive _ o => o < n
  | _ => True

theorem Effect.Below.mono {n n' : Nat} {e : Effect} (h : e.Below n) (hn : n ≤ n') : e.Below n' := by
  cases e with
  | arrive q o => exact Nat.lt_of_lt_of_le h hn
  | _ => trivial

/-- The fault that an effect is. -/
def Effect.fault? : Effect → Option Fault
  | fault f => some f
  | _ => none

namespace Solver

section Definitions

variable (t : ClassTable) (s : Solver)

/-- One effect. -/
def apply (e : Effect) : Solver :=
  if s.fault.isSome then s
  else
    match e with
    | .node q => (s.pointer q).2
    | .edge kind a b filter => s.connect t kind a b filter
    | .arrive q o => (s.pointer q).2.enqueue (s.pointer q).1 (.singleton o)
    | .alloc site =>
      let (p, s) := s.pointer (.var site.lhs)
      let (o, s) := s.object site
      s.enqueue p (.singleton o)
    | .wait i => { s with waiting := s.waiting ++ [i] }
    | .ask c recv => (s.ask (c.target t recv)).2
    | .call c callee =>
      let (fresh, calls) := s.calls.addEdge c.stmt callee c.call.kind.dispatched
      let s := { s with calls }
      if fresh then (s.tell (.callEdge c.stmt callee)).addReachable callee else s
    | .unresolved site recv e => s.unresolved site recv e
    | .fault f => s.fail f

/-- A list of effects, the first of them first. -/
def applyAll (es : List Effect) : Solver := es.foldl (apply t) s

/-- The graph after an effect. -/
def flowAfter : Effect → FlowGraph Pointer
  | .node q => (s.flow.intern q).2
  | .edge kind a b filter =>
    ((s.flowWith a b).addEdge kind (s.flow.intern a).1 ((s.flow.intern a).2.intern b).1 filter).2
  | .arrive q _ => (s.flow.intern q).2
  | .alloc site => (s.flow.intern (.var site.lhs)).2
  | _ => s.flow

/-- The work that an effect adds. -/
def workOf : Effect → List Work
  | .edge kind a b filter =>
    { s with flow := s.flowWith a b }.edgeWork t kind (s.flow.intern a).1
      ((s.flow.intern a).2.intern b).1 filter
  | .arrive q o => [.delta (s.flow.intern q).1 (.singleton o)]
  | .alloc site => [.delta (s.flow.intern (.var site.lhs)).1 (.singleton (s.object site).1)]
  | .call c m =>
    if (s.calls.edgeKind? c.stmt m).isSome then [] else if m ∈ s.calls.reachable then []
      else [.method m]
  | _ => []

/-- The heap after an effect. -/
def heapAfter : Effect → Array Site
  | .alloc site => (s.object site).2.heap
  | _ => s.heap

/-- The call graph after an effect. -/
def callsAfter : Effect → CallGraph Stmt MethodId
  | .call c m =>
    if (s.calls.edgeKind? c.stmt m).isSome then s.calls
    else { s.calls.withEdge c.stmt m c.call.kind.dispatched with
      reachable := if m ∈ s.calls.reachable then s.calls.reachable else s.calls.reachable ++ [m] }
  | _ => s.calls

/-- The waiting statements after an effect. -/
def waitingAfter : Effect → List Instr
  | .wait i => s.waiting ++ [i]
  | _ => s.waiting

/-- The diagnostics after an effect. -/
def diagnosticsAfter : Effect → Array Diagnostic
  | .unresolved site recv e => s.diagnostics.push ⟨site, recv, e⟩
  | _ => s.diagnostics

end Definitions

variable {t : ClassTable} {s : Solver} {e : Effect} {q a b : Pointer} {o : Nat} {kind : EdgeKind}
  {filter : Option Ty} {i : Instr} {m : MethodId}

@[simp] theorem applyAll_cons (e : Effect) (es : List Effect) :
    s.applyAll t (e :: es) = (s.apply t e).applyAll t es := rfl

@[simp] theorem applyAll_append (es es' : List Effect) :
    s.applyAll t (es ++ es') = (s.applyAll t es).applyAll t es' := List.foldl_append

theorem apply_of_fault (h : s.fault.isSome) (e : Effect) : s.apply t e = s := if_pos h

theorem applyAll_of_fault (h : s.fault.isSome) (es : List Effect) : s.applyAll t es = s := by
  induction es with
  | nil => rfl
  | cons e es ih => rw [applyAll_cons, apply_of_fault h, ih]

/-! ## The state after an effect -/

theorem not_isSome_fault (h : s.fault = none) : ¬ s.fault.isSome = true := by
  rw [h]
  exact Bool.false_ne_true

theorem apply_call_eq (h : s.fault = none) (c : Invocation) (m : MethodId) :
    ∃ events, s.apply t (.call c m) =
      { s with
        events
        queue := s.queue.pushAll (s.workOf t (.call c m))
        calls := s.callsAfter (.call c m) } := by
  unfold apply workOf callsAfter
  rw [if_neg (not_isSome_fault h)]
  dsimp only
  by_cases hedge : (s.calls.edgeKind? c.stmt m).isSome
  · refine ⟨s.events, ?_⟩
    rw [CallGraph.addEdge_of_isSome hedge, if_pos hedge, if_pos hedge]
    rfl
  · refine ⟨s.events.push (.callEdge c.stmt m), ?_⟩
    rw [CallGraph.addEdge_of_not_isSome hedge, if_neg hedge, if_neg hedge]
    exact addReachable_eq m

theorem apply_eq (hs : s.Proper t) (h : s.fault = none) (e : Effect) :
    ∃ memo events, Memo.Asked t s.memo memo ∧ s.apply t e =
      { s with
        memo, events
        flow := s.flowAfter e
        queue := s.queue.pushAll (s.workOf t e)
        heap := s.heapAfter e
        calls := s.callsAfter e
        waiting := s.waitingAfter e
        diagnostics := s.diagnosticsAfter e
        fault := e.fault? } := by
  obtain ⟨memo, queue, flow, heap, calls, waiting, diagnostics, events, facts, steps, fault⟩ := s
  subst h
  cases e with
  | node q => exact ⟨memo, events, .refl, rfl⟩
  | edge kind a b filter =>
    obtain ⟨memo', events', hmemo, heq⟩ := connect_eq hs.memo kind a b filter
    exact ⟨memo', events', hmemo, heq⟩
  | arrive q o => exact ⟨memo, events, .refl, rfl⟩
  | alloc site =>
    refine ⟨memo, events, .refl, ?_⟩
    show Solver.enqueue _ _ _ = _
    unfold heapAfter workOf flowAfter object
    dsimp only [pointer]
    split <;> rfl
  | wait i => exact ⟨memo, events, .refl, rfl⟩
  | ask c recv =>
    obtain ⟨memo', hmemo, heq⟩ := ask_eq (c.target_answers t recv) hs.memo
    refine ⟨memo', events, hmemo, ?_⟩
    show (Solver.ask _ _).2 = _
    rw [heq]
    rfl
  | call c m =>
    obtain ⟨events', heq⟩ := apply_call_eq (t := t) (s := ⟨memo, queue, flow, heap, calls, waiting,
      diagnostics, events, facts, steps, none⟩) rfl c m
    exact ⟨memo, events', .refl, heq⟩
  | unresolved site recv e =>
    show ∃ _ _, _ ∧ Solver.unresolved _ _ _ _ = _
    unfold unresolved
    dsimp only
    split_ifs
    · exact ⟨memo, events, .refl, rfl⟩
    · exact ⟨memo, events.push (.unresolved site e), .refl, rfl⟩
  | fault f => exact ⟨memo, events, .refl, rfl⟩

/-! ## The graph after an effect -/

theorem size_le_flowAfter (s : Solver) (e : Effect) : s.flow.size ≤ (s.flowAfter e).size := by
  cases e with
  | node q => exact FlowGraph.size_le_intern s.flow q
  | edge kind a b filter =>
    show _ ≤ ((s.flowWith a b).addEdge kind _ _ filter).2.size
    rw [FlowGraph.size_addEdge]
    exact Nat.le_trans (FlowGraph.size_le_intern s.flow a) (FlowGraph.size_le_intern _ b)
  | arrive q o => exact FlowGraph.size_le_intern s.flow q
  | alloc site => exact FlowGraph.size_le_intern s.flow _
  | _ => exact Nat.le_refl _

theorem key?_flowAfter_of_lt {n : Nat} (h : n < s.flow.size) (e : Effect) :
    (s.flowAfter e).key? n = s.flow.key? n := by
  cases e with
  | node q => exact FlowGraph.key?_intern_of_lt h q
  | edge kind a b filter =>
    show ((s.flowWith a b).addEdge kind _ _ filter).2.key? n = _
    have ha := Nat.lt_of_lt_of_le h (FlowGraph.size_le_intern s.flow a)
    rw [FlowGraph.key?_addEdge, flowWith, FlowGraph.key?_intern_of_lt ha,
      FlowGraph.key?_intern_of_lt h]
  | arrive q o => exact FlowGraph.key?_intern_of_lt h q
  | alloc site => exact FlowGraph.key?_intern_of_lt h _
  | _ => rfl

@[simp] theorem pts_flowAfter (s : Solver) (e : Effect) (n : Nat) :
    (s.flowAfter e).pts n = s.flow.pts n := by
  cases e <;> simp [flowAfter, flowWith]

theorem flowAfter_wellFormed (h : s.flow.WellFormed) (e : Effect) : (s.flowAfter e).WellFormed := by
  cases e with
  | node q => exact h.intern q
  | edge kind a b filter =>
    exact (flowWith_wellFormed h a b).addEdge (FlowGraph.lt_of_key? (key?_flowWith_source s a b))
      (FlowGraph.lt_of_key? (key?_flowWith_target s a b))
  | arrive q o => exact h.intern q
  | alloc site => exact h.intern _
  | _ => exact h

theorem holds_flowAfter : (s.flowAfter e).Holds q o ↔ s.Holds q o := by
  cases e with
  | node q => exact FlowGraph.holds_intern
  | edge kind a b filter => exact FlowGraph.holds_addEdge.trans holds_flowWith
  | arrive q o => exact FlowGraph.holds_intern
  | alloc site => exact FlowGraph.holds_intern
  | _ => exact Iff.rfl

theorem flows_flowAfter (h : s.flow.WellFormed) : (s.flowAfter e).Flows kind a b filter ↔
    s.Flows kind a b filter ∨ e = .edge kind a b filter := by
  cases e with
  | node q => exact h.flows_intern.trans (or_iff_left nofun).symm
  | edge kind' a' b' filter' =>
    refine ((flowWith_wellFormed h a' b').flows_addEdge (key?_flowWith_source s a' b')
      (key?_flowWith_target s a' b')).trans ?_
    rw [flows_flowWith h, Effect.edge.injEq]
    refine or_congr_right ?_
    simp only [eq_comm]
  | arrive q o => exact h.flows_intern.trans (or_iff_left nofun).symm
  | alloc site => exact h.flows_intern.trans (or_iff_left nofun).symm
  | _ => exact (or_iff_left nofun).symm

/-! ## The work of an effect -/

/-- An effect sends an object to a pointer. A new edge sends what is at its source and passes its
filter. -/
def Sends (t : ClassTable) (s : Solver) (e : Effect) (q : Pointer) (o : Nat) : Prop :=
  match e with
  | .edge kind a b filter =>
    q = b ∧ ¬ s.Flows kind a b filter ∧ s.Holds a o ∧ s.passes t filter o = true
  | .arrive q' o' => q = q' ∧ o = o'
  | .alloc site => q = .var site.lhs ∧ o = (s.object site).1
  | _ => False

theorem exists_mem_parcel {j : Nat} {os : ObjSet} {p : Nat → Prop} :
    (∃ i os', .delta i os' ∈ s.parcel t j os filter ∧ p i ∧ o ∈ os') ↔
      p j ∧ o ∈ os ∧ s.passes t filter o = true := by
  unfold parcel
  rw [← mem_kept]
  split_ifs with h
  · rw [ObjSet.mem_def, ObjSet.isEmpty_iff.mp h]
    simp
  · simp

/-- The objects in the work of an effect are those that it sends. -/
theorem exists_mem_workOf (hs : s.Proper t) :
    (∃ i os, .delta i os ∈ s.workOf t e ∧ (s.flowAfter e).key? i = some q ∧ o ∈ os) ↔
      s.Sends t e q o := by
  cases e with
  | edge kind a b filter =>
    have hw := flowWith_wellFormed hs.flow a b
    have ha := key?_flowWith_source s a b
    have hb := key?_flowWith_target s a b
    have hflows : ((s.flow.intern a).1, ⟨kind, ((s.flow.intern a).2.intern b).1, filter⟩) ∈
        (s.flowWith a b).edges ↔ s.Flows kind a b filter :=
      (hw.mem_edges_iff.trans (hw.flows_iff ha hb).symm).trans (flows_flowWith hs.flow)
    have hholds := (hw.holds_iff ha (o := o)).symm.trans holds_flowWith
    simp only [workOf, edgeWork_eq, flowAfter, Sends, FlowGraph.key?_addEdge]
    split_ifs with h
    · simp [hflows.mp h]
    · rw [exists_mem_parcel, hb, Option.some.injEq, eq_comm, hholds]
      simp [hflows.not.mp h, passes, typeOf?]
  | arrive q' o' => simp [workOf, flowAfter, Sends, FlowGraph.key?_intern_self, eq_comm]
  | alloc site => simp [workOf, flowAfter, Sends, FlowGraph.key?_intern_self, eq_comm]
  | call c m =>
    simp only [workOf, Sends, iff_false]
    split_ifs <;> simp
  | _ => simp [workOf, Sends]

theorem parcel_below {n j : Nat} {os : ObjSet} (hos : os.Below n) {i : Nat} {os' : ObjSet}
    (h : .delta i os' ∈ s.parcel t j os filter) : i = j ∧ os'.Below n := by
  unfold parcel at h
  split_ifs at h
  · exact absurd h List.not_mem_nil
  · obtain ⟨rfl, rfl⟩ := Work.delta.inj (List.mem_singleton.mp h)
    exact ⟨rfl, hos.filter _⟩

theorem size_le_heapAfter (s : Solver) (e : Effect) : s.heap.size ≤ (s.heapAfter e).size := by
  cases e with
  | alloc site => exact size_heap_le_object s site
  | _ => exact Nat.le_refl _

/-- The work of an effect concerns nodes and objects that are there. -/
theorem workOf_below (hs : s.Proper t) (he : e.Below s.heap.size) {i : Nat} {os : ObjSet}
    (h : .delta i os ∈ s.workOf t e) : i < (s.flowAfter e).size ∧
      os.Below (s.heapAfter e).size := by
  cases e with
  | edge kind a b filter =>
    simp only [workOf, edgeWork_eq] at h
    split_ifs at h
    · exact absurd h List.not_mem_nil
    · have hpts : ((s.flowWith a b).pts (s.flow.intern a).1).Below s.heap.size := by
        simpa [flowWith] using hs.pts _
      obtain ⟨rfl, hos⟩ := parcel_below hpts h
      refine ⟨?_, hos⟩
      show _ < FlowGraph.size (FlowGraph.addEdge ..).2
      rw [FlowGraph.size_addEdge]
      exact FlowGraph.lt_of_key? (key?_flowWith_target s a b)
  | arrive q o =>
    obtain ⟨rfl, rfl⟩ := Work.delta.inj (List.mem_singleton.mp h)
    exact ⟨FlowGraph.intern_lt s.flow q, ObjSet.below_singleton he⟩
  | alloc site =>
    obtain ⟨rfl, rfl⟩ := Work.delta.inj (List.mem_singleton.mp h)
    refine ⟨FlowGraph.intern_lt s.flow _, ObjSet.below_singleton ?_⟩
    exact (Array.getElem?_eq_some_iff.mp (getElem?_heap_object.mpr (Or.inr ⟨rfl, rfl⟩))).1
  | call c m =>
    simp only [workOf] at h
    split_ifs at h <;> simp at h
  | _ => exact absurd h List.not_mem_nil

/-! ## The call graph after an effect -/

theorem reachable_callsAfter (t : ClassTable) (s : Solver) (e : Effect) :
    (s.callsAfter e).reachable = s.calls.reachable ++ (s.workOf t e).filterMap entered? := by
  cases e with
  | edge kind a b filter =>
    simp only [callsAfter, workOf, edgeWork_eq, parcel]
    split_ifs <;> simp [entered?]
  | call c m =>
    simp only [callsAfter, workOf]
    split_ifs <;> simp [entered?]
  | _ => simp [callsAfter, workOf, entered?]

/-- The methods that an effect puts to work were not reachable before. -/
theorem entered_workOf (h : .method m ∈ s.workOf t e) :
    (∃ c, e = .call c m) ∧ m ∉ s.calls.reachable := by
  cases e with
  | edge kind a b filter =>
    simp only [workOf, edgeWork_eq, parcel] at h
    split_ifs at h <;> simp at h
  | call c m' =>
    simp only [workOf] at h
    split_ifs at h with hedge hm
    · exact absurd h List.not_mem_nil
    · exact absurd h List.not_mem_nil
    · obtain rfl := Work.method.inj (List.mem_singleton.mp h)
      exact ⟨⟨c, rfl⟩, hm⟩
  | arrive q o => simp [workOf] at h
  | alloc site => simp [workOf] at h
  | _ => exact absurd h List.not_mem_nil

theorem length_workOf_le (t : ClassTable) (s : Solver) (e : Effect) :
    (s.workOf t e).length ≤ 1 := by
  cases e with
  | edge kind a b filter =>
    simp only [workOf, edgeWork_eq, parcel]
    split_ifs <;> simp
  | call c m =>
    simp only [workOf]
    split_ifs <;> simp
  | _ => simp [workOf]

theorem nodup_entered_workOf (t : ClassTable) (s : Solver) (e : Effect) :
    ((s.workOf t e).filterMap entered?).Nodup := by
  have h := Nat.le_trans (List.length_filterMap_le entered? (s.workOf t e)) (length_workOf_le t s e)
  match (s.workOf t e).filterMap entered?, h with
  | [], _ => exact List.nodup_nil
  | [m], _ => exact List.pairwise_singleton _ m

theorem mem_reachable_callsAfter (hs : s.Proper t) :
    m ∈ (s.callsAfter e).reachable ↔ m ∈ s.calls.reachable ∨ ∃ c, e = .call c m := by
  cases e with
  | call c m' =>
    simp only [callsAfter]
    split_ifs with hedge hm
    · -- the callee of an edge is reachable
      obtain ⟨x, hx, -, rfl⟩ := hs.indexed.edgeKind?_isSome_iff.mp hedge
      have := hs.callee_reachable x hx
      constructor
      · exact Or.inl
      · rintro (h | ⟨c', h⟩)
        · exact h
        · obtain ⟨-, rfl⟩ := Effect.call.inj h
          exact this
    · simp only [Effect.call.injEq, exists_eq_left', eq_comm]
      constructor
      · exact Or.inl
      · rintro (h | rfl)
        · exact h
        · exact hm
    · simp [eq_comm]
  | _ => exact (or_iff_left fun ⟨_, h⟩ => nomatch h).symm

theorem mem_edges_callsAfter {x : CallEdge Stmt MethodId} : x ∈ (s.callsAfter e).edges ↔
    x ∈ s.calls.edges ∨ ∃ c m, e = .call c m ∧ ¬ (s.calls.edgeKind? c.stmt m).isSome ∧
      x = ⟨c.stmt, m, c.call.kind.dispatched⟩ := by
  cases e with
  | call c m =>
    simp only [callsAfter]
    by_cases hedge : (s.calls.edgeKind? c.stmt m).isSome
    · rw [if_pos hedge]
      refine (or_iff_left ?_).symm
      rintro ⟨_, _, h, hne, -⟩
      obtain ⟨rfl, rfl⟩ := Effect.call.inj h
      exact hne hedge
    · rw [if_neg hedge, CallGraph.edges_withEdge, List.mem_append, List.mem_singleton]
      refine or_congr_right ⟨fun h => ⟨c, m, rfl, hedge, h⟩, ?_⟩
      rintro ⟨_, _, h, -, hx⟩
      obtain ⟨rfl, rfl⟩ := Effect.call.inj h
      exact hx
  | _ => exact (or_iff_left fun ⟨_, _, h, _⟩ => nomatch h).symm

/-! ## Proper states -/

theorem callee_reachable_callsAfter (hs : s.Proper t) (e : Effect) :
    ∀ x ∈ (s.callsAfter e).edges, x.callee ∈ (s.callsAfter e).reachable := by
  intro x hx
  rw [mem_reachable_callsAfter hs]
  rcases mem_edges_callsAfter.mp hx with hx | ⟨c, m, rfl, -, rfl⟩
  · exact Or.inl (hs.callee_reachable x hx)
  · exact Or.inr ⟨c, rfl⟩

theorem indexed_callsAfter (hs : s.Proper t) (e : Effect) : (s.callsAfter e).Indexed := by
  cases e with
  | call c m =>
    by_cases hedge : (s.calls.edgeKind? c.stmt m).isSome
    · rw [callsAfter, if_pos hedge]
      exact hs.indexed
    · rw [callsAfter, if_neg hedge]
      exact (hs.indexed.withEdge hedge).congr rfl rfl rfl
  | _ => exact hs.indexed

theorem heapAfter_distinct (hs : s.Proper t) (e : Effect) {o o' : Nat} {site : Site}
    (h : (s.heapAfter e)[o]? = some site) (h' : (s.heapAfter e)[o']? = some site) : o = o' := by
  cases e with
  | alloc x => exact heap_object_distinct hs.heap h h'
  | _ => exact hs.heap h h'

theorem apply_of_fault_eq_some {f : Fault} (h : s.fault = some f) (e : Effect) : s.apply t e = s :=
  apply_of_fault (by rw [h]; rfl) e

theorem Proper.apply (hs : s.Proper t) (he : e.Below s.heap.size) : (s.apply t e).Proper t := by
  cases hf : s.fault with
  | some f => rwa [apply_of_fault_eq_some hf]
  | none =>
    obtain ⟨memo, events, hmemo, heq⟩ := apply_eq hs hf e
    have hlist := Queue.toList_pushAll hs.queue (s.workOf t e)
    have hqueued : (s.apply t e).queued = s.queued ++ (s.workOf t e).filterMap entered? := by
      rw [heq]
      unfold queued
      dsimp only
      rw [hlist, List.filterMap_append]
    have hreach : (s.apply t e).calls.reachable =
        s.calls.reachable ++ (s.workOf t e).filterMap entered? := by
      rw [heq]
      exact reachable_callsAfter t s e
    refine ⟨?_, ?_, ?_, ?_, ?_, ?_, ?_, ?_, ?_, ?_⟩
    · rw [heq]
      exact flowAfter_wellFormed hs.flow e
    · rw [heq]
      exact hmemo.faithful hs.memo
    · rw [heq]
      exact hs.queue.pushAll _
    · rw [heq]
      exact heapAfter_distinct hs e
    · intro i
      rw [heq]
      dsimp only
      rw [pts_flowAfter]
      exact (hs.pts i).mono (size_le_heapAfter s e)
    · intro i os h
      rw [heq] at h ⊢
      dsimp only at h ⊢
      rw [hlist, List.mem_append] at h
      rcases h with h | h
      · obtain ⟨hi, hos⟩ := hs.delta h
        exact ⟨Nat.lt_of_lt_of_le hi (size_le_flowAfter s e), hos.mono (size_le_heapAfter s e)⟩
      · exact workOf_below hs he h
    · rw [heq]
      exact indexed_callsAfter hs e
    · rw [heq]
      exact callee_reachable_callsAfter hs e
    · rw [hqueued, hreach]
      intro m hm
      rcases List.mem_append.mp hm with hm | hm
      · exact List.mem_append_left _ (hs.queued_reachable m hm)
      · exact List.mem_append_right _ hm
    · rw [hqueued, List.nodup_append]
      refine ⟨hs.queued_nodup, nodup_entered_workOf t s e, ?_⟩
      rintro m hm m' hm' rfl
      obtain ⟨w, hw, hwm⟩ := List.mem_filterMap.mp hm'
      cases w with
      | delta i os => exact absurd hwm nofun
      | method m' =>
        obtain rfl := Option.some.inj hwm
        exact (entered_workOf hw).2 (hs.queued_reachable _ hm)

/-! ## Relations after an effect -/

theorem fault_apply (hs : s.Proper t) :
    (s.apply t e).fault = none ↔ s.fault = none ∧ e.fault? = none := by
  cases hf : s.fault with
  | some f => simp [apply_of_fault_eq_some hf, hf]
  | none =>
    obtain ⟨memo, events, -, heq⟩ := apply_eq hs hf e
    simp [heq]

/-- A fault was there before, or it is the effect. -/
theorem of_fault_apply_eq_some (hs : s.Proper t) {f : Fault} (h : (s.apply t e).fault = some f) :
    s.fault = some f ∨ e.fault? = some f := by
  cases hf : s.fault with
  | some f' =>
    rw [apply_of_fault_eq_some hf, hf] at h
    exact Or.inl h
  | none =>
    obtain ⟨memo, events, -, heq⟩ := apply_eq hs hf e
    rw [heq] at h
    exact Or.inr h

/-- An effect changes the memory by asking questions only. -/
theorem asked_apply (hs : s.Proper t) (e : Effect) : Memo.Asked t s.memo (s.apply t e).memo := by
  cases hf : s.fault with
  | some f =>
    rw [apply_of_fault_eq_some hf]
    exact .refl
  | none =>
    obtain ⟨memo, events, hmemo, heq⟩ := apply_eq hs hf e
    rw [heq]
    exact hmemo

theorem key?_apply (hs : s.Proper t) {n : Nat} (h : s.flow.key? n = some q) (e : Effect) :
    (s.apply t e).flow.key? n = some q := by
  cases hf : s.fault with
  | some f => rwa [apply_of_fault_eq_some hf]
  | none =>
    obtain ⟨memo, events, -, heq⟩ := apply_eq hs hf e
    rw [heq]
    exact (key?_flowAfter_of_lt (FlowGraph.lt_of_key? h) e).trans h

theorem holds_apply (hs : s.Proper t) : (s.apply t e).Holds q o ↔ s.Holds q o := by
  cases hf : s.fault with
  | some f => rw [apply_of_fault_eq_some hf]
  | none =>
    obtain ⟨memo, events, -, heq⟩ := apply_eq hs hf e
    rw [heq]
    exact holds_flowAfter

theorem flows_apply (hs : s.Proper t) : (s.apply t e).Flows kind a b filter ↔
    s.Flows kind a b filter ∨ (s.fault = none ∧ e = .edge kind a b filter) := by
  cases hf : s.fault with
  | some f => simp [apply_of_fault_eq_some hf]
  | none =>
    obtain ⟨memo, events, -, heq⟩ := apply_eq hs hf e
    rw [heq]
    refine (flows_flowAfter hs.flow).trans (or_congr_right ?_)
    exact (and_iff_right rfl).symm

theorem pending_apply (hs : s.Proper t) :
    (s.apply t e).Pending q o ↔ s.Pending q o ∨ (s.fault = none ∧ s.Sends t e q o) := by
  cases hf : s.fault with
  | some f => simp [apply_of_fault_eq_some hf]
  | none =>
    obtain ⟨memo, events, -, heq⟩ := apply_eq hs hf e
    rw [heq, ← exists_mem_workOf hs]
    unfold Pending
    simp only [Queue.toList_pushAll hs.queue, List.mem_append, or_and_right, exists_or, true_and]
    -- the nodes of work that was there before keep their keys
    refine or_congr_left (exists_congr fun i => exists_congr fun os => and_congr_right fun h => ?_)
    rw [key?_flowAfter_of_lt (hs.delta h).1]

theorem due_apply (hs : s.Proper t) :
    (s.apply t e).Due q o ↔ s.Due q o ∨ (s.fault = none ∧ s.Sends t e q o) := by
  unfold Due
  rw [holds_apply hs, pending_apply hs, or_assoc]

theorem mem_waiting_apply (hs : s.Proper t) :
    i ∈ (s.apply t e).waiting ↔ i ∈ s.waiting ∨ (s.fault = none ∧ e = .wait i) := by
  cases hf : s.fault with
  | some f => simp [apply_of_fault_eq_some hf]
  | none =>
    obtain ⟨memo, events, -, heq⟩ := apply_eq hs hf e
    rw [heq]
    cases e <;> simp [waitingAfter, eq_comm]

theorem getElem?_heap_apply (hs : s.Proper t) {site : Site} : (s.apply t e).heap[o]? = some site ↔
    s.heap[o]? = some site ∨ (s.fault = none ∧ e = .alloc site ∧ o = (s.object site).1) := by
  cases hf : s.fault with
  | some f => simp [apply_of_fault_eq_some hf]
  | none =>
    obtain ⟨memo, events, -, heq⟩ := apply_eq hs hf e
    rw [heq]
    cases e with
    | alloc x =>
      refine getElem?_heap_object.trans (or_congr_right ?_)
      rw [Effect.alloc.injEq]
      constructor
      · rintro ⟨rfl, rfl⟩
        exact ⟨rfl, rfl, rfl⟩
      · rintro ⟨-, rfl, rfl⟩
        exact ⟨rfl, rfl⟩
    | _ => simp [heapAfter]

theorem mem_reachable_apply (hs : s.Proper t) : m ∈ (s.apply t e).calls.reachable ↔
    m ∈ s.calls.reachable ∨ (s.fault = none ∧ ∃ c, e = .call c m) := by
  cases hf : s.fault with
  | some f => simp [apply_of_fault_eq_some hf]
  | none =>
    obtain ⟨memo, events, -, heq⟩ := apply_eq hs hf e
    rw [heq]
    simpa using mem_reachable_callsAfter hs

theorem mem_edges_apply (hs : s.Proper t) {x : CallEdge Stmt MethodId} :
    x ∈ (s.apply t e).calls.edges ↔ x ∈ s.calls.edges ∨ (s.fault = none ∧ ∃ c m, e = .call c m ∧
      ¬ (s.calls.edgeKind? c.stmt m).isSome ∧ x = ⟨c.stmt, m, c.call.kind.dispatched⟩) := by
  cases hf : s.fault with
  | some f => simp [apply_of_fault_eq_some hf]
  | none =>
    obtain ⟨memo, events, -, heq⟩ := apply_eq hs hf e
    rw [heq]
    simpa using mem_edges_callsAfter

theorem mem_diagnostics_apply (hs : s.Proper t) {d : Diagnostic} : d ∈ (s.apply t e).diagnostics ↔
    d ∈ s.diagnostics ∨ (s.fault = none ∧ e = .unresolved d.site d.object d.error) := by
  cases hf : s.fault with
  | some f => simp [apply_of_fault_eq_some hf]
  | none =>
    obtain ⟨memo, events, -, heq⟩ := apply_eq hs hf e
    rw [heq]
    cases e with
    | unresolved site recv e =>
      obtain ⟨site', recv', e'⟩ := d
      simp [diagnosticsAfter, eq_comm]
    | _ => simp [diagnosticsAfter]

/-- The methods to be entered after an effect: those from before, and those that became
reachable. -/
theorem mem_queued_apply (hs : s.Proper t) : m ∈ (s.apply t e).queued ↔
    m ∈ s.queued ∨ (m ∈ (s.apply t e).calls.reachable ∧ m ∉ s.calls.reachable) := by
  cases hf : s.fault with
  | some f =>
    rw [apply_of_fault_eq_some hf]
    simp
  | none =>
    obtain ⟨memo, events, -, heq⟩ := apply_eq hs hf e
    rw [heq]
    simp only [mem_queued, Queue.toList_pushAll hs.queue, List.mem_append]
    refine or_congr_right ⟨fun h => ⟨?_, (entered_workOf h).2⟩, ?_⟩
    · exact (mem_reachable_callsAfter hs).mpr (Or.inr (entered_workOf h).1)
    · rw [reachable_callsAfter t, List.mem_append]
      rintro ⟨h | h, hm⟩
      · exact absurd h hm
      · obtain ⟨w, hw, hwm⟩ := List.mem_filterMap.mp h
        cases w with
        | delta i os => exact absurd hwm nofun
        | method m' => rwa [← Option.some.inj hwm]

/-! ## Lists of effects -/

theorem size_heap_le_apply (hs : s.Proper t) (e : Effect) :
    s.heap.size ≤ (s.apply t e).heap.size := by
  cases hf : s.fault with
  | some f => simp [apply_of_fault_eq_some hf]
  | none =>
    obtain ⟨memo, events, -, heq⟩ := apply_eq hs hf e
    rw [heq]
    exact size_le_heapAfter s e

/-- What every effect keeps, as long as the state is proper, a list of effects keeps. -/
theorem applyAll_induction {p : Solver → Prop} {es : List Effect}
    (hstep : ∀ (s : Solver), ∀ e ∈ es, s.Proper t → p s → p (s.apply t e)) :
    ∀ {s : Solver}, s.Proper t → (∀ e ∈ es, e.Below s.heap.size) → p s →
      (s.applyAll t es).Proper t ∧ p (s.applyAll t es) := by
  induction es with
  | nil => exact fun hs _ hp => ⟨hs, hp⟩
  | cons e es ih =>
    intro s hs hes hp
    rw [applyAll_cons]
    refine ih (fun s e he => hstep s e (List.mem_cons_of_mem _ he))
      (hs.apply (hes e List.mem_cons_self)) ?_
      (hstep s e List.mem_cons_self hs hp)
    intro e' he'
    exact (hes e' (List.mem_cons_of_mem _ he')).mono (size_heap_le_apply hs e)

theorem Proper.applyAll (hs : s.Proper t) {es : List Effect} (hes : ∀ e ∈ es, e.Below s.heap.size) :
    (s.applyAll t es).Proper t :=
  (applyAll_induction (p := fun _ => True) (fun _ _ _ _ h => h) hs hes trivial).1

theorem typeOf?_apply (hs : s.Proper t) (ho : o < s.heap.size) (e : Effect) :
    (s.apply t e).typeOf? o = s.typeOf? o := by
  have hsite := Array.getElem?_eq_getElem ho
  unfold typeOf?
  rw [hsite, (getElem?_heap_apply hs).mpr (Or.inl hsite)]

end Solver

end PointsTo
