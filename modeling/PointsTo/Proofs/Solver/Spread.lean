import PointsTo.Proofs.Answers
import PointsTo.Proofs.Solver.Move
import PointsTo.Proofs.Solver.Step

/-!
# States with any memory

A memory that gives old answers leads the solver astray, but not into states whose parts do not fit
together. A state is `Coherent` if its graph is well-formed, objects are on their way to nodes of
the graph and its memory gives the answers that it gave at the start, whatever these are.

Most operations only spread objects: they add nodes, edges and objects that are on their way, and
leave everything else as it is (`Spreads`).
-/

namespace PointsTo.Solver

variable {t : ClassTable} {m₀ : Memo} {s s' s'' : Solver} {i j : Nat} {os : ObjSet}

/-- The parts of the state fit together, and its memory gives the answers that `m₀` gives. -/
structure Coherent (t : ClassTable) (m₀ : Memo) (s : Solver) : Prop where
  memo : Memo.Same t m₀ s.memo
  flow : s.flow.WellFormed
  queue : s.queue.InBounds
  pts : ∀ i, (s.flow.pts i).Below s.heap.size
  delta : ∀ {i os}, .delta i os ∈ s.queue.toList → i < s.flow.size ∧ os.Below s.heap.size
  indexed : s.calls.Indexed
  callee_reachable : ∀ e ∈ s.calls.edges, e.callee ∈ s.calls.reachable
  queued_reachable : ∀ m ∈ s.queued, m ∈ s.calls.reachable
  queued_nodup : s.queued.Nodup

/-- Apart from what is remembered and told, only nodes, edges and objects on their way were added to
the state, which is still coherent. -/
structure Spreads (t : ClassTable) (m₀ : Memo) (s s' : Solver) : Prop where
  coherent : s'.Coherent t m₀
  heap : s'.heap = s.heap
  calls : s'.calls = s.calls
  waiting : s'.waiting = s.waiting
  diagnostics : s'.diagnostics = s.diagnostics
  facts : s'.facts = s.facts
  fault : s'.fault = s.fault
  queued : s'.queued = s.queued
  pts : ∀ i, s'.flow.pts i = s.flow.pts i
  key : ∀ {i q}, s.flow.key? i = some q → s'.flow.key? i = some q

namespace Spreads

theorem refl (hs : s.Coherent t m₀) : Spreads t m₀ s s :=
  ⟨hs, rfl, rfl, rfl, rfl, rfl, rfl, rfl, fun _ => rfl, id⟩

theorem trans (h : Spreads t m₀ s s') (h' : Spreads t m₀ s' s'') : Spreads t m₀ s s'' where
  coherent := h'.coherent
  heap := h'.heap.trans h.heap
  calls := h'.calls.trans h.calls
  waiting := h'.waiting.trans h.waiting
  diagnostics := h'.diagnostics.trans h.diagnostics
  facts := h'.facts.trans h.facts
  fault := h'.fault.trans h.fault
  queued := h'.queued.trans h.queued
  pts i := (h'.pts i).trans (h.pts i)
  key hi := h'.key (h.key hi)

theorem lt_size (h : Spreads t m₀ s s') (hi : i < s.flow.size) : i < s'.flow.size := by
  obtain ⟨q, hq⟩ := FlowGraph.exists_key? hi
  exact FlowGraph.lt_of_key? (h.key hq)

/-- Steps of a loop that each spread objects, if what they need goes on to hold. -/
theorem foldl {α : Type} {f : Solver → α → Solver} {l : List α} {p : Solver → Prop}
    (hp : ∀ {s s'}, Spreads t m₀ s s' → p s → p s')
    (h : ∀ s, ∀ a ∈ l, s.Coherent t m₀ → p s → Spreads t m₀ s (f s a)) :
    ∀ s, s.Coherent t m₀ → p s → Spreads t m₀ s (l.foldl f s) := by
  induction l with
  | nil => exact fun s hs _ => refl hs
  | cons a l ih =>
    intro s hs hps
    have ha := h s a List.mem_cons_self hs hps
    exact ha.trans (ih (fun s b hb => h s b (List.mem_cons_of_mem a hb)) _ ha.coherent (hp ha hps))

end Spreads

/-! ## Operations that spread objects -/

section Operations

variable (hs : s.Coherent t m₀)

include hs

theorem ask_spreads {α : Type} {x : StateM Memo α} (hx : Memo.Settled (Memo.Same t) x) :
    Spreads t m₀ s (s.ask x).2 :=
  { Spreads.refl hs with coherent := { hs with memo := (hx m₀ s.memo hs.memo).2 } }

theorem tell_spreads (e : Event) : Spreads t m₀ s (s.tell e) :=
  { Spreads.refl hs with coherent := { hs with } }

theorem pointer_spreads (q : Pointer) : Spreads t m₀ s (s.pointer q).2 where
  coherent := { hs with
    flow := hs.flow.intern q
    pts := fun i => (FlowGraph.pts_intern s.flow q i).symm ▸ hs.pts i
    delta := fun h => (hs.delta h).imp_left
      fun hlt => Nat.lt_of_lt_of_le hlt (FlowGraph.size_le_intern _ q) }
  heap := rfl
  calls := rfl
  waiting := rfl
  diagnostics := rfl
  facts := rfl
  fault := rfl
  queued := rfl
  pts := FlowGraph.pts_intern s.flow q
  key hi := FlowGraph.key?_intern.mpr (Or.inl hi)

theorem enqueue_spreads (hi : i < s.flow.size) (hos : os.Below s.heap.size) :
    Spreads t m₀ s (s.enqueue i os) := by
  have hlist : (s.enqueue i os).queue.toList = s.queue.toList ++ [.delta i os] :=
    Queue.toList_push hs.queue _
  have hqueued : (s.enqueue i os).queued = s.queued := by
    unfold queued
    rw [hlist, List.filterMap_append]
    exact List.append_nil _
  refine { Spreads.refl hs with
    queued := hqueued
    coherent := { hs with
      queue := hs.queue.push _
      delta := fun {n os'} h => ?_
      queued_reachable := hqueued.symm ▸ hs.queued_reachable
      queued_nodup := hqueued.symm ▸ hs.queued_nodup } }
  rw [hlist, List.mem_append, List.mem_singleton] at h
  rcases h with h | h
  · exact hs.delta h
  · obtain ⟨rfl, rfl⟩ := Work.delta.inj h
    exact ⟨hi, hos⟩

omit hs in
theorem keepSubtypes_spreads (type : Ty) (l : List Nat) : ∀ {s : Solver}, s.Coherent t m₀ →
    Spreads t m₀ s (keepSubtypes t type l s).2 ∧ (keepSubtypes t type l s).1.Sublist l := by
  induction l with
  | nil => exact fun hs => ⟨.refl hs, .slnil⟩
  | cons o l ih =>
    intro s hs
    have hkeep : ∀ (b : Bool) {s' : Solver}, Spreads t m₀ s s' →
        Spreads t m₀ s (keepSubtypes t type l s').2 ∧
        (if b then o :: (keepSubtypes t type l s').1 else (keepSubtypes t type l s').1).Sublist
        (o :: l) := by
      intro b s' h
      obtain ⟨hrest, hsub⟩ := ih h.coherent
      refine ⟨h.trans hrest, ?_⟩
      cases b with
      | true => exact hsub.cons_cons o
      | false => exact hsub.cons o
    unfold keepSubtypes
    dsimp only
    split
    · next u hu => exact hkeep _ (ask_spreads hs (Memo.isSubtype_settled t u type))
    · exact hkeep false (.refl hs)

theorem send_spreads (hi : i < s.flow.size) (hos : os.Below s.heap.size) (filter : Option Ty) :
    Spreads t m₀ s (s.send t i os filter) := by
  have hif : ∀ {os : ObjSet} {s : Solver}, s.Coherent t m₀ → i < s.flow.size →
      os.Below s.heap.size →
      Spreads t m₀ s (if os.isEmpty then s else s.enqueue i os) := by
    intro os s hs hi hos
    split_ifs
    · exact .refl hs
    · exact enqueue_spreads hs hi hos
  unfold send
  cases filter with
  | none => exact hif hs hi hos
  | some type =>
    obtain ⟨hkeep, hsub⟩ := keepSubtypes_spreads (t := t) type os.ids hs
    refine hkeep.trans (hif hkeep.coherent (hkeep.lt_size hi) ?_)
    rw [hkeep.heap]
    exact ⟨hos.nodup.sublist hsub, fun o ho => hos.lt o (hsub.subset ho)⟩

theorem flowEdge_spreads (hi : i < s.flow.size) (hj : j < s.flow.size) (kind : EdgeKind)
    (filter : Option Ty) : Spreads t m₀ s
    { s with flow := (s.flow.addEdge kind i j filter).2 } := by
  have hsize := FlowGraph.size_addEdge s.flow kind i j filter
  exact { Spreads.refl hs with
    coherent := { hs with
      flow := hs.flow.addEdge hi hj
      pts := fun n => (FlowGraph.pts_addEdge ..).symm ▸ hs.pts n
      delta := fun h => hsize.symm ▸ hs.delta h }
    pts := FlowGraph.pts_addEdge s.flow kind i j filter
    key := fun hn => (FlowGraph.key?_addEdge ..).trans hn }

theorem addEdge_spreads (hi : i < s.flow.size) (hj : j < s.flow.size) (kind : EdgeKind)
    (filter : Option Ty) :
    Spreads t m₀ s (s.addEdge t kind i j filter) := by
  have hflow := flowEdge_spreads hs hi hj kind filter
  have htell := hflow.trans (tell_spreads hflow.coherent (.flowEdge kind i j))
  unfold addEdge
  dsimp only
  split_ifs
  · exact htell
  · exact htell.trans (send_spreads htell.coherent (htell.lt_size hj) (htell.coherent.pts i) filter)
  · exact .refl hs

theorem connect_spreads (kind : EdgeKind) (a b : Pointer) (filter : Option Ty) :
    Spreads t m₀ s (s.connect t kind a b filter) := by
  have ha := pointer_spreads hs a
  have hb := pointer_spreads ha.coherent b
  refine (ha.trans hb).trans (addEdge_spreads hb.coherent (hb.lt_size ?_) ?_ kind filter)
  · exact FlowGraph.lt_of_key? (key?_pointer s a)
  · exact FlowGraph.lt_of_key? (key?_pointer _ b)

theorem passArguments_spreads (args formals : List Var) :
    Spreads t m₀ s (passArguments t args formals s) :=
  Spreads.foldl (p := fun _ => True) (fun _ => id) (fun _ _ _ hs _ => connect_spreads hs ..)
    s hs trivial

theorem passResult_spreads (result : Option Var) (returned : List Var) :
    Spreads t m₀ s (passResult t result returned s) := by
  unfold passResult
  cases result with
  | none => exact .refl hs
  | some r =>
    have hr := pointer_spreads hs (.var r)
    refine hr.trans (Spreads.foldl (p := fun s' => (s.pointer (.var r)).1 < s'.flow.size)
      (fun h => h.lt_size)
      (fun s' v _ hs' hlt => ?_) _ hr.coherent (FlowGraph.lt_of_key? (key?_pointer s _)))
    have hv := pointer_spreads hs' (.var v)
    exact hv.trans (addEdge_spreads hv.coherent (FlowGraph.lt_of_key? (key?_pointer s' _))
      (hv.lt_size hlt) _ _)

theorem foldl_send_spreads {es : List FlowEdge} (hes : ∀ e ∈ es, e.target < s.flow.size)
    (hos : os.Below s.heap.size) :
    Spreads t m₀ s (es.foldl (fun s e => s.send t e.target os e.filter) s) :=
  Spreads.foldl (p := fun s' => (∀ e ∈ es, e.target < s'.flow.size) ∧ os.Below s'.heap.size)
    (fun h ⟨hlt, hos⟩ => ⟨fun e he => h.lt_size (hlt e he), h.heap.symm ▸ hos⟩)
    (fun _ e he hs ⟨hlt, hos⟩ => send_spreads hs (hlt e he) hos e.filter) s hs ⟨hes, hos⟩

end Operations

end PointsTo.Solver
