import PointsTo.Solver.Run
import PointsTo.Proofs.Solver.Balance

/-!
# Runs of the solver

A run begins in a state with nothing but the entry methods, which are to be entered (`Initial`), and
takes steps until something stops it. What holds of the first state and is kept by steps holds of
the last (`runUpTo_induction`); in particular the state is proper and, as long as there is no fault,
balanced (`Proper.step`, `Balanced.step`). A run that is finished leaves no work and no fault.
-/

namespace PointsTo.Solver

variable {t : ClassTable} {s : Solver} {memo : Memo} {m : MethodId}

/-! ## The first state -/

/-- Nothing is known yet but methods that are to be entered. -/
structure Initial (memo : Memo) (s : Solver) : Prop where
  memo : s.memo = memo
  flow : s.flow = .empty
  heap : s.heap = #[]
  edges : s.calls.edges = []
  indexed : s.calls.Indexed
  waiting : s.waiting = []
  fault : s.fault = none
  inBounds : s.queue.InBounds
  queue : s.queue.toList = s.calls.reachable.map .method
  nodup : s.calls.reachable.Nodup

theorem addEntry_eq (s : Solver) (m : MethodId) : s.addEntry m =
    { s with
      calls := { s.calls with
        entries := s.calls.entries ++ [m]
        reachable := if m ∈ s.calls.reachable then s.calls.reachable else s.calls.reachable ++ [m] }
      queue := s.queue.pushAll (if m ∈ s.calls.reachable then [] else [.method m]) } :=
  addReachable_eq (s := { s with calls := { s.calls with entries := s.calls.entries ++ [m] } }) m

theorem Initial.addEntry (hs : s.Initial memo) (m : MethodId) : (s.addEntry m).Initial memo := by
  rw [addEntry_eq]
  by_cases h : m ∈ s.calls.reachable
  · rw [if_pos h, if_pos h]
    exact { hs with indexed := hs.indexed.congr rfl rfl rfl }
  · rw [if_neg h, if_neg h]
    exact { hs with
      indexed := hs.indexed.congr rfl rfl rfl
      inBounds := hs.inBounds.pushAll _
      queue := by
        dsimp only
        rw [Queue.toList_pushAll hs.inBounds, hs.queue, List.map_append]
        rfl
      nodup := by
        rw [List.nodup_append]
        refine ⟨hs.nodup, List.pairwise_singleton _ m, ?_⟩
        rintro x hx y hy rfl
        exact h (List.mem_singleton.mp hy ▸ hx) }

theorem mem_reachable_addEntry {m' : MethodId} :
    m' ∈ (s.addEntry m).calls.reachable ↔ m' ∈ s.calls.reachable ∨ m' = m := by
  rw [addEntry_eq]
  exact CallGraph.mem_ite_append

theorem foldl_addEntry (entries : List MethodId) : ∀ {s : Solver}, s.Initial memo →
    (entries.foldl addEntry s).Initial memo ∧
      ∀ m, m ∈ (entries.foldl addEntry s).calls.reachable ↔ m ∈ s.calls.reachable ∨
        m ∈ entries := by
  induction entries with
  | nil => exact fun hs => ⟨hs, fun m => by simp⟩
  | cons m ms ih =>
    intro s hs
    obtain ⟨hinit, hmem⟩ := ih (hs.addEntry m)
    refine ⟨hinit, fun m' => ?_⟩
    rw [List.foldl_cons, hmem, mem_reachable_addEntry, List.mem_cons, or_assoc]

theorem initial_mk (memo : Memo) : ({ memo } : Solver).Initial memo :=
  ⟨rfl, rfl, rfl, rfl, CallGraph.indexed_empty, rfl, rfl, Queue.inBounds_empty, rfl, List.nodup_nil⟩

theorem initial_start (memo : Memo) (entries : List MethodId) : (start memo entries).Initial memo :=
  (foldl_addEntry entries (initial_mk memo)).1

theorem mem_reachable_start {entries : List MethodId} :
    m ∈ (start memo entries).calls.reachable ↔ m ∈ entries :=
  ((foldl_addEntry entries (initial_mk memo)).2 m).trans (or_iff_right List.not_mem_nil)

theorem Initial.queued (hs : s.Initial memo) : s.queued = s.calls.reachable := by
  unfold Solver.queued
  rw [hs.queue, List.filterMap_map]
  exact List.filterMap_some

theorem Initial.not_holds (hs : s.Initial memo) (q : Pointer) (o : Nat) : ¬ s.Holds q o := by
  unfold Holds
  rw [hs.flow]
  rintro ⟨i, hi, -⟩
  simp [FlowGraph.key?, FlowGraph.empty] at hi

theorem Initial.not_flows (hs : s.Initial memo) (kind : EdgeKind) (a b : Pointer)
    (filter : Option Ty) :
    ¬ s.Flows kind a b filter := by
  unfold Flows
  rw [hs.flow]
  rintro ⟨i, j, hi, -⟩
  simp [FlowGraph.key?, FlowGraph.empty] at hi

theorem Initial.not_mem_delta (hs : s.Initial memo) {n : Nat} {os : ObjSet} :
    .delta n os ∉ s.queue.toList := by
  rw [hs.queue]
  simp

theorem Initial.proper (hs : s.Initial memo) (hm : memo.Faithful t) : s.Proper t where
  flow := by rw [hs.flow]; exact FlowGraph.wellFormed_empty
  memo := by rw [hs.memo]; exact hm
  queue := hs.inBounds
  heap h := by simp [hs.heap] at h
  pts i := by
    rw [hs.flow, FlowGraph.pts_eq_of_size_le (Nat.zero_le _)]
    exact ObjSet.below_empty
  delta h := absurd h hs.not_mem_delta
  indexed := hs.indexed
  callee_reachable := by simp [hs.edges]
  queued_reachable m hm := hs.queued ▸ hm
  queued_nodup := hs.queued ▸ hs.nodup

theorem Initial.balanced (hs : s.Initial memo) : s.Balanced t where
  carried kind a b filter _ h := absurd h (hs.not_flows kind a b filter)
  met i hi := by simp [hs.waiting] at hi
  entered m hm hq := absurd (hs.queued ▸ hm) hq

/-! ## Steps -/

theorem asked_applyAll (hs : s.Proper t) {es : List Effect} (hes : ∀ e ∈ es, e.Below s.heap.size) :
    Memo.Asked t s.memo (s.applyAll t es).memo :=
  (applyAll_induction (p := fun s' => Memo.Asked t s.memo s'.memo)
    (fun _ e _ hs h => h.trans (asked_apply hs e)) hs hes .refl).2

/-- A step changes the memory by asking questions only. -/
theorem asked_step (hs : s.Proper t) : Memo.Asked t s.memo (s.step t).memo := by
  obtain ⟨first, es, hfirst, heq⟩ := exists_begins hs
  have hasked : Memo.Asked t s.memo first.memo := by
    cases hfirst with
    | arrive hpop hlt hos hnew =>
      obtain ⟨memo, facts, hmemo, heq⟩ := arrive_eq (hs.taken hpop) _ _
      rw [heq]
      exact hmemo
    | _ => exact .refl
  rw [heq]
  exact hasked.trans (asked_applyAll (hfirst.proper hs) (hfirst.below hs))

/-! ## Runs -/

variable {l : Limits}

theorem fault_of_stop?_eq_none (h : l.stop? s = none) : s.fault = none := by
  unfold Limits.stop? at h
  split at h
  · exact nomatch h
  · assumption

theorem of_stop?_eq_finished (h : l.stop? s = some .finished) :
    s.fault = none ∧ s.queue.toList = [] := by
  unfold Limits.stop? at h
  split at h
  · exact nomatch h
  · by_cases hempty : s.queue.isEmpty
    · exact ⟨by assumption, Queue.isEmpty_iff.mp hempty⟩
    · rw [if_neg hempty] at h
      split_ifs at h <;> exact nomatch h

/-- What every step of a run without faults keeps, the run keeps. -/
theorem runUpTo_induction {p : Solver → Prop} (hstep : ∀ s, s.fault = none → p s → p (s.step t)) :
    ∀ (n : Nat) {s : Solver}, p s → p (runUpTo t l n s).2
  | 0, _, h => h
  | n + 1, s, h => by
    unfold runUpTo
    cases hstop : l.stop? s with
    | some why => exact h
    | none => exact runUpTo_induction hstep n (hstep s (fault_of_stop?_eq_none hstop) h)

/-- A run that is finished has neither a fault nor work left. -/
theorem runUpTo_finished : ∀ (n : Nat) {s s' : Solver}, runUpTo t l n s = (.finished, s') →
    s'.fault = none ∧ s'.queue.toList = []
  | 0, _, _, h => nomatch congrArg Prod.fst h
  | n + 1, s, s', h => by
    unfold runUpTo at h
    cases hstop : l.stop? s with
    | some why =>
      rw [hstop] at h
      obtain ⟨rfl, rfl⟩ := Prod.mk.inj h
      exact of_stop?_eq_finished hstop
    | none =>
      rw [hstop] at h
      exact runUpTo_finished n h

end PointsTo.Solver
