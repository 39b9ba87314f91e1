import PointsTo.Proofs.Loading
import PointsTo.Proofs.Solver.Final
import PointsTo.Proofs.Validation

/-!
# The result is the least solution

A result of the analysis obeys the constraints of the program (`analyze_closed`), says nothing that
some solution of the constraints does not say, and has no flow edge that its statements do not ask
for (`analyze_least`).
-/

namespace PointsTo.Program

open Description

variable {p : Program} {c : AnalysisConfig} {r : Result}

/-- The result for the nodes that are linked by a field. -/
def nodesResult : Result := (nodesProgram.analyze {}).outcome.toOption.getD (.ofSolver {})

theorem analyze_nodes : (nodesProgram.analyze {}).outcome = .ok nodesResult :=
  eq_ok_of_isSome (by decide +kernel) _

theorem added_nodes (id : MethodId) (m : Method) (h : nodesProgram.table.method? id = some m) :
    m.Added :=
  ((nodes.build_loaded _ build_nodes).1.methods id m h).added

/-- An analysis asks questions, and declares nothing. -/
theorem steady_afterRun (hp : p.hierarchy.Steady) (hf : p.table.FiniteChains) (c : AnalysisConfig) :
    (p.afterRun (p.analyze c)).hierarchy.Steady := by
  rw [analyze_eq]
  split_ifs
  · refine hp.asked ?_
    refine (solve_induction (q := fun s => s.Proper p.table ∧
      Memo.Asked p.table p.hierarchy.memo s.memo) ?_ ?_).2
    · have hinit := Solver.initial_start p.hierarchy.memo (p.roots c)
      refine ⟨hinit.proper (hp.faithful hf), ?_⟩
      rw [hinit.memo]
      exact .refl
    · rintro s - ⟨hs, hasked⟩
      exact ⟨hs.step, hasked.trans (Solver.asked_step hs)⟩
  · exact hp

theorem closed_of_analyze (hmemo : p.hierarchy.memo.Faithful p.table)
    (hcollected : ∀ id m, p.table.method? id = some m → m.Collected)
    (hr : (p.analyze c).outcome = .ok r) : r.solution.Closed p.table (p.roots c) := by
  obtain ⟨hvalid, s, hsolve, rfl⟩ := of_analyze_eq_ok hr
  refine Solver.closed_of_solve hcollected (fun id m hm st hst => ?_) hmemo hsolve
  exact Method.instr?_of_checkStmt ((of_violations_eq_nil hvalid).2 id m hm st hst)

theorem within_of_analyze {σ : Solution} (hσ : σ.Closed p.table (p.roots c))
    (hmemo : p.hierarchy.memo.Faithful p.table)
    (hcollected : ∀ id m, p.table.method? id = some m → m.Collected)
    (hr : (p.analyze c).outcome = .ok r) :
    r.solution ≤ σ ∧ ∀ kind a b filter, r.flow.Flows kind a b filter →
      Solver.Provides p.table σ r.heap kind a b filter := by
  obtain ⟨-, s, hsolve, rfl⟩ := of_analyze_eq_ok hr
  have hs := (Solver.final_of_solve hmemo hsolve).proper
  have hw : Solver.Within p.table σ (p.solve (p.roots c) c.limits).2 :=
    Solver.within_of_solve hσ hcollected hmemo
  rw [hsolve] at hw
  refine ⟨⟨fun m hm => hw.reachable m (of_decide_eq_true hm), ?_, hw.edges⟩,
    fun _ _ _ _ => hw.flows⟩
  rintro a site ⟨q, o, hq, ho, hmem⟩
  obtain ⟨a', site', hq', ho', hσmem⟩ := hw.due (Or.inl ((Solver.mem_pointsTo hs).mp hmem))
  rwa [Option.some.inj (hq.symm.trans hq'), Option.some.inj (ho.symm.trans ho')]

/-- Soundness: a result obeys the constraints of the program. -/
theorem analyze_closed (hp : p.hierarchy.Steady) (hf : p.table.FiniteChains)
    (hbodies : ∀ id m, p.table.method? id = some m → m.Added) (hr : (p.analyze c).outcome = .ok r) :
    r.solution.Closed p.table (p.roots c) :=
  closed_of_analyze (hp.faithful hf) (fun id m hm => (hbodies id m hm).collected) hr

theorem closed_nodesResult : nodesResult.heap.size = 2 ∧
    nodesResult.solution.Closed nodesProgram.table (nodesProgram.roots {}) :=
  ⟨by decide +kernel, analyze_closed (steady_of_build build_nodes)
    finiteChains_nodes added_nodes analyze_nodes⟩

/-- Precision: a result is included in every solution of the constraints, and every flow edge is one
that the statements of reachable methods ask for; it has a type filter if and only if it comes from
a cast. -/
theorem analyze_least (hp : p.hierarchy.Steady) (hf : p.table.FiniteChains)
    (hbodies : ∀ id m, p.table.method? id = some m → m.Added) (hr : (p.analyze c).outcome = .ok r) :
    (∀ σ : Solution, σ.Closed p.table (p.roots c) → r.solution ≤ σ) ∧
      ∀ kind a b filter, r.flow.Flows kind a b filter →
        (∃ a' b', a.slot? r.heap = some a' ∧ b.slot? r.heap = some b' ∧
          r.solution.Demands p.table kind a' b' filter) ∧ (filter.isSome ↔ kind = .cast) := by
  have hmemo := hp.faithful hf
  have hcollected : ∀ id m, p.table.method? id = some m → m.Collected := fun id m hm =>
    (hbodies id m hm).collected
  refine ⟨fun σ hσ => (within_of_analyze hσ hmemo hcollected hr).1, fun kind a b filter hedge => ?_⟩
  have hclosed := closed_of_analyze hmemo hcollected hr
  obtain ⟨a', b', ha, hb, hd⟩ :=
    (within_of_analyze hclosed hmemo hcollected hr).2 kind a b filter hedge
  exact ⟨⟨a', b', ha, hb, hd⟩, hd.filter_iff⟩

theorem least_nodesResult :
    (∀ σ : Solution, σ.Closed nodesProgram.table (nodesProgram.roots {}) →
      nodesResult.solution ≤ σ) ∧
      ∀ kind a b filter, nodesResult.flow.Flows kind a b filter →
        (∃ a' b', a.slot? nodesResult.heap = some a' ∧ b.slot? nodesResult.heap = some b' ∧
          nodesResult.solution.Demands nodesProgram.table kind a' b' filter) ∧
        (filter.isSome ↔ kind = .cast) :=
  analyze_least (steady_of_build build_nodes) finiteChains_nodes added_nodes analyze_nodes

end PointsTo.Program
