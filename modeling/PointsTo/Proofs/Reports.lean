import PointsTo.Proofs.Limits
import PointsTo.Proofs.Solver.Agenda

/-!
# Reports of facts

The solver reports every object that it finds a pointer to point to. At any moment between two steps
of a run, the reports made so far are what pointers point to, each once (`Solver.Reported`). Steps
add reports behind those that were made before, and objects to what pointers point to. Limits only
say where a run ends, so this holds for all runs, whatever stops them (`Program.analyze_reports`).
Nothing is assumed about the program or its memory.
-/

namespace PointsTo

namespace Solver

variable {t : ClassTable} {m₀ : Memo} {s s' first : Solver} {us : List Turn}
  {q : Pointer} {n o : Nat}

/-- The pointers and objects that were reported, in this order. -/
def reports (s : Solver) : List (Pointer × Nat) :=
  s.facts.toList.filterMap fun x => (s.flow.key? x.1).map fun q => (q, x.2)

/-- Every object at a node was reported, and only once. -/
structure Reported (s : Solver) : Prop where
  nodup : s.facts.toList.Nodup
  mem_iff : ∀ n o, (n, o) ∈ s.facts.toList ↔ o ∈ s.flow.pts n

/-! ## Steps -/

theorem Reported.keeps (hr : s.Reported) (h : Keeps t m₀ s s') : s'.Reported where
  nodup := h.facts.symm ▸ hr.nodup
  mem_iff n o := by rw [h.facts, h.pts, hr.mem_iff]

theorem Reported.join (hr : s.Reported) {p : Nat} {os : ObjSet} (hp : p < s.flow.size)
    (hos : os.ids.Nodup) :
    (s.join p (os.diff (s.flow.pts p))).Reported := by
  have hfacts : (s.join p (os.diff (s.flow.pts p))).facts.toList =
      s.facts.toList ++ (os.diff (s.flow.pts p)).ids.map (p, ·) := toList_foldl_push ..
  constructor
  · rw [hfacts, List.nodup_append]
    refine ⟨hr.nodup, (ObjSet.nodup_diff hos).map fun _ _ h => (Prod.mk.inj h).2, ?_⟩
    rintro ⟨n, o⟩ hold _ hnew rfl
    obtain ⟨o', ho', heq⟩ := List.mem_map.mp hnew
    obtain ⟨rfl, rfl⟩ := Prod.mk.inj heq
    exact (ObjSet.mem_diff.mp ho').2 ((hr.mem_iff p o').mp hold)
  · intro n o
    rw [hfacts, List.mem_append, hr.mem_iff, List.mem_map]
    show _ ↔ o ∈ (s.flow.addPts p _).pts n
    by_cases hn : n = p
    · subst hn
      rw [FlowGraph.pts_addPts_self hp, ObjSet.mem_union]
      simp [ObjSet.mem_def]
    · rw [FlowGraph.pts_addPts_of_ne hn]
      simp [Ne.symm hn]

theorem Opens.reported (h : s.Opens t m₀ first us) (hr : s.Reported) : first.Reported := by
  cases h with
  | idle hpop => exact hr
  | known hpop => exact { hr with }
  | @arrive p os queue hpop hp hos hnew h =>
    have htaken : (s.taken queue).Reported := { hr with }
    exact (htaken.join hp hos.nodup).keeps h.keeps
  | @enter m queue hpop h =>
    have htaken : (s.taken queue).Reported := { hr with }
    exact htaken.keeps h.keeps

theorem Reported.step (hr : s.Reported) (hs : s.Coherent t m₀) : (s.step t).Reported :=
  ((opens_opened hs).reported hr).keeps (keeps_step hs)

/-! ## What steps add -/

theorem Opens.key (h : s.Opens t m₀ first us) (hn : s.flow.key? n = some q) :
    first.flow.key? n = some q := by
  cases h with
  | idle hpop => exact hn
  | known hpop => exact hn
  | arrive hpop hp hos hnew h => exact h.key ((FlowGraph.key?_addPts ..).trans hn)
  | enter hpop h => exact h.key hn

theorem Opens.pts_subset (h : s.Opens t m₀ first us) (ho : o ∈ s.flow.pts n) :
    o ∈ first.flow.pts n := by
  cases h with
  | idle hpop => exact ho
  | known hpop => exact ho
  | @arrive p os queue hpop hp hos hnew h =>
    rw [h.pts]
    show o ∈ (s.flow.addPts p _).pts n
    by_cases hn : n = p
    · rw [hn, FlowGraph.pts_addPts_self hp, ObjSet.mem_union]
      exact Or.inl (hn ▸ ho)
    · rwa [FlowGraph.pts_addPts_of_ne hn]
  | enter hpop h => exact (h.pts n).symm ▸ ho

theorem key?_step (hs : s.Coherent t m₀) (hn : s.flow.key? n = some q) :
    (s.step t).flow.key? n = some q :=
  (keeps_step hs).key ((opens_opened hs).key hn)

theorem holds_step (hs : s.Coherent t m₀) (h : s.Holds q o) : (s.step t).Holds q o := by
  obtain ⟨n, hn, ho⟩ := h
  refine ⟨n, key?_step hs hn, ?_⟩
  rw [(keeps_step hs).pts]
  exact (opens_opened hs).pts_subset ho

theorem Reported.exists_key? (hr : s.Reported) (h : (n, o) ∈ s.facts.toList) :
    ∃ q, s.flow.key? n = some q := by
  refine FlowGraph.exists_key? (Nat.lt_of_not_le fun hle => ?_)
  have ho := (hr.mem_iff n o).mp h
  rw [FlowGraph.pts_eq_of_size_le hle] at ho
  exact ObjSet.not_mem_empty ho

theorem reports_prefix_step (hr : s.Reported) (hs : s.Coherent t m₀) :
    s.reports <+: (s.step t).reports := by
  obtain ⟨new, hnew⟩ := facts_prefix_step t s
  unfold reports
  rw [← hnew, List.filterMap_append]
  have hold : s.facts.toList.filterMap (fun x => (s.flow.key? x.1).map fun q => (q, x.2)) =
      s.facts.toList.filterMap fun x => ((s.step t).flow.key? x.1).map fun q => (q, x.2) := by
    refine List.filterMap_congr fun x hx => ?_
    obtain ⟨q, hq⟩ := hr.exists_key? hx
    rw [hq, key?_step hs hq]
  rw [hold]
  exact List.prefix_append _ _

/-! ## Reports of a state -/

theorem Reported.length_reports (hr : s.Reported) : s.reports.length = s.facts.size := by
  unfold reports
  rw [← Array.length_toList, List.length_filterMap_eq_countP, List.countP_eq_length]
  intro x hx
  obtain ⟨q, hq⟩ := hr.exists_key? hx
  rw [hq]
  rfl

theorem Reported.mem_reports (hr : s.Reported) : (q, o) ∈ s.reports ↔ s.Holds q o := by
  unfold reports Holds FlowGraph.Holds
  rw [List.mem_filterMap]
  constructor
  · rintro ⟨⟨n, o'⟩, hmem, hx⟩
    obtain ⟨q', hn, heq⟩ := Option.map_eq_some_iff.mp hx
    obtain ⟨rfl, rfl⟩ := Prod.mk.inj heq
    exact ⟨n, hn, (hr.mem_iff n o').mp hmem⟩
  · rintro ⟨n, hn, ho⟩
    exact ⟨(n, o), (hr.mem_iff n o).mpr ho, by rw [hn]; rfl⟩

theorem Reported.nodup_reports (hr : s.Reported) (hs : s.Coherent t m₀) : s.reports.Nodup := by
  refine hr.nodup.filterMap fun x y z hx hy => ?_
  obtain ⟨q, hq, rfl⟩ := Option.map_eq_some_iff.mp hx
  obtain ⟨q', hq', heq⟩ := Option.map_eq_some_iff.mp hy
  obtain ⟨rfl, ho⟩ := Prod.mk.inj heq
  exact Prod.ext (hs.flow.distinct hq hq') ho.symm

/-! ## Runs -/

/-- The first state has nothing but methods to be entered. -/
theorem exists_start_eq (memo : Memo) (entries : List MethodId) :
    ∃ calls queue, start memo entries = { memo, calls, queue } := by
  have hfold : ∀ (entries : List MethodId) (s : Solver), ∃ calls queue,
      entries.foldl addEntry s = { s with calls, queue } := by
    intro entries
    induction entries with
    | nil => exact fun s => ⟨s.calls, s.queue, rfl⟩
    | cons m ms ih =>
      intro s
      obtain ⟨calls, queue, heq⟩ := ih (s.addEntry m)
      rw [List.foldl_cons, heq, addEntry_eq]
      exact ⟨calls, queue, rfl⟩
  exact hfold entries _

theorem reported_start (memo : Memo) (entries : List MethodId) : (start memo entries).Reported := by
  obtain ⟨calls, queue, heq⟩ := exists_start_eq memo entries
  rw [heq]
  refine ⟨List.nodup_nil, fun n o => iff_of_false List.not_mem_nil ?_⟩
  rw [FlowGraph.pts_eq_of_size_le (Nat.zero_le _)]
  exact ObjSet.not_mem_empty

/-- A run ends in the state after as many steps as it has taken, and it goes on only while there is
no fault. -/
theorem exists_runUpTo_eq_iterate (t : ClassTable) (l : Limits) : ∀ (n : Nat) (s : Solver),
    ∃ k, (runUpTo t l n s).2 = (step t)^[k] s ∧ (runUpTo t l n s).2.steps = s.steps + k ∧
      ∀ j < k, ((step t)^[j] s).fault = none
  | 0, s => ⟨0, rfl, rfl, fun _ hj => absurd hj (Nat.not_lt_zero _)⟩
  | n + 1, s => by
    unfold runUpTo
    cases hstop : l.stop? s with
    | some why => exact ⟨0, rfl, rfl, fun _ hj => absurd hj (Nat.not_lt_zero _)⟩
    | none =>
      obtain ⟨k, heq, hsteps, hfault⟩ := exists_runUpTo_eq_iterate t l n (s.step t)
      rw [steps_step (of_stop?_eq_none hstop).1] at hsteps
      refine ⟨k + 1, heq, by rw [hsteps]; omega, fun j hj => ?_⟩
      cases j with
      | zero => exact fault_of_stop?_eq_none hstop
      | succ j => exact hfault j (Nat.lt_of_succ_lt_succ hj)

end Solver

namespace Program

open Description

variable {p : Program} {c : AnalysisConfig}

/-- The state after a number of steps of the analysis. -/
def stateAfter (p : Program) (c : AnalysisConfig) (k : Nat) : Solver :=
  (Solver.step p.table)^[k] (.start p.hierarchy.memo (p.roots c))

theorem stateAfter_succ (p : Program) (c : AnalysisConfig) (k : Nat) :
    p.stateAfter c (k + 1) = (p.stateAfter c k).step p.table := Function.iterate_succ_apply' ..

theorem coherent_stateAfter (p : Program) (c : AnalysisConfig) (k : Nat) :
    (p.stateAfter c k).Coherent p.table p.hierarchy.memo := by
  induction k with
  | zero => exact (Solver.initial_start _ _).coherent p.table
  | succ k ih =>
    rw [stateAfter_succ]
    exact ih.step

theorem reported_stateAfter (p : Program) (c : AnalysisConfig) (k : Nat) :
    (p.stateAfter c k).Reported := by
  induction k with
  | zero => exact Solver.reported_start _ _
  | succ k ih =>
    rw [stateAfter_succ]
    exact ih.step (p.coherent_stateAfter c k)

/-- The analysis stops in the state after as many steps as it has taken, and no state before had a
fault. -/
theorem stateAfter_of_solver {s : Solver} (h : (p.analyze c).solver = some s) :
    s = p.stateAfter c s.steps ∧ ∀ k < s.steps, (p.stateAfter c k).fault = none := by
  rw [analyze_eq] at h
  split_ifs at h
  have hstart := Solver.steps_start p.hierarchy.memo (p.roots c)
  obtain rfl := Option.some.inj h
  unfold solve
  dsimp only
  split_ifs
  · rw [hstart]
    exact ⟨rfl, fun _ hk => absurd hk (Nat.not_lt_zero _)⟩
  · obtain ⟨k, heq, hsteps, hfault⟩ := Solver.exists_runUpTo_eq_iterate p.table c.limits p.stepBound
      (.start p.hierarchy.memo (p.roots c))
    rw [hstart, Nat.zero_add] at hsteps
    rw [hsteps]
    exact ⟨heq, hfault⟩

theorem solver_eq_stateAfter {s : Solver} (h : (p.analyze c).solver = some s) :
    s = p.stateAfter c s.steps :=
  (stateAfter_of_solver h).1

/-- A result is what the solver found. -/
theorem exists_solver_of_outcome {r : Result} (h : (p.analyze c).outcome = .ok r) :
    ∃ s, (p.analyze c).solver = some s ∧ r = .ofSolver s := by
  rw [analyze_eq] at h ⊢
  split_ifs at h ⊢
  exact ⟨_, rfl, (outcomeOf_eq_ok h).2⟩

/-- Every fact is reported exactly once, and none is lost. After any number of steps of the analysis
no pointer and object were reported twice, and exactly those were reported where the object is at
the pointer. Later steps take back neither reports nor objects. Every run, also one that limits end
early, stops in the state after as many steps as it has taken. So the reports that lead to a result
are what its pointers point to. -/
theorem analyze_reports (p : Program) (c : AnalysisConfig) :
    (∀ k, (p.stateAfter c k).reports.Nodup ∧
      (p.stateAfter c k).reports.length = (p.stateAfter c k).facts.size ∧
      ∀ q o, (q, o) ∈ (p.stateAfter c k).reports ↔ (p.stateAfter c k).Holds q o) ∧
    (∀ j k, j ≤ k → (p.stateAfter c j).reports <+: (p.stateAfter c k).reports ∧
      ∀ q o, (p.stateAfter c j).Holds q o → (p.stateAfter c k).Holds q o) ∧
    (∀ s, (p.analyze c).solver = some s → s = p.stateAfter c s.steps) ∧
    ∀ r, (p.analyze c).outcome = .ok r → ∃ s, (p.analyze c).solver = some s ∧ r = .ofSolver s ∧
      s.reports.Nodup ∧ ∀ q o, (q, o) ∈ s.reports ↔ o ∈ r.pointsTo q := by
  have hreports : ∀ k, (p.stateAfter c k).reports.Nodup ∧
      (p.stateAfter c k).reports.length = (p.stateAfter c k).facts.size ∧
      ∀ q o, (q, o) ∈ (p.stateAfter c k).reports ↔ (p.stateAfter c k).Holds q o := fun k =>
    have hr := p.reported_stateAfter c k
    ⟨hr.nodup_reports (p.coherent_stateAfter c k), hr.length_reports, fun q o => hr.mem_reports⟩
  refine ⟨hreports, fun j k hjk => ?_, fun s => solver_eq_stateAfter, fun r hr => ?_⟩
  · induction k, hjk using Nat.le_induction with
    | base => exact ⟨List.prefix_rfl, fun q o => id⟩
    | succ k _ ih =>
      have hs := p.coherent_stateAfter c k
      rw [stateAfter_succ]
      exact ⟨ih.1.trans (Solver.reports_prefix_step (p.reported_stateAfter c k) hs),
        fun q o h => Solver.holds_step hs (ih.2 q o h)⟩
  · obtain ⟨s, hsolver, rfl⟩ := exists_solver_of_outcome hr
    have hstate := solver_eq_stateAfter hsolver
    have hs : s.Coherent p.table p.hierarchy.memo := hstate ▸ p.coherent_stateAfter c s.steps
    obtain ⟨hnodup, -, hmem⟩ := hreports s.steps
    rw [← hstate] at hnodup hmem
    exact ⟨s, hsolver, rfl, hnodup, fun q o => (hmem q o).trans
      (Solver.mem_pointsTo_iff hs.flow).symm⟩

theorem reports_nodes : ∃ s, (nodesProgram.analyze {}).solver = some s ∧ nodesResult = .ofSolver s ∧
    s.reports.Nodup ∧ ∀ q o, (q, o) ∈ s.reports ↔ o ∈ nodesResult.pointsTo q :=
  (analyze_reports nodesProgram {}).2.2.2 nodesResult analyze_nodes

end Program

end PointsTo
