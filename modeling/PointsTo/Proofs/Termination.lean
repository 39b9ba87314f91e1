import PointsTo.Proofs.Limits
import PointsTo.Proofs.Solver.Safety

/-!
# The analysis terminates

A run stops within the bound on the number of steps: every step lowers the potential of the state,
and at the start the potential is below the bound (`Solver.runUpTo_eq_iterate`). Without limits,
only a fault stops a run that has work to do. A program that was read from a description and has no
violations, and whose superclass chains are finite, causes none. So its analysis has a result
(`Program.analyze_terminates`).
-/

namespace PointsTo

namespace Solver

variable {p : Program} {s : Solver}

theorem stop?_unlimited (h : s.fault = none) :
    ({} : Limits).stop? s = if s.queue.isEmpty then some .finished else none := by
  unfold Limits.stop? Limits.isCancelled
  rw [h]
  simp

/-- What is known of every state of a run. -/
structure Sane (p : Program) (s : Solver) : Prop where
  proper : s.Proper p.table
  fit : s.Fit p

theorem Sane.fault_eq_none (h : s.Sane p) (hfinite : p.table.FiniteChains) : s.fault = none :=
  Option.eq_none_iff_forall_not_mem.mpr fun f hf => hfinite.not_unending (h.fit.fault f hf)

section Runs

variable (hp : ∀ i ∈ p.instrs, i.Faultless p.table)

include hp

theorem Sane.step (h : s.Sane p) : (s.step p.table).Sane p :=
  ⟨h.proper.step, h.fit.step h.proper hp⟩

theorem Sane.iterate (h : s.Sane p) (k : Nat) : ((Solver.step p.table)^[k] s).Sane p := by
  induction k generalizing s with
  | zero => exact h
  | succ k ih => exact ih (h.step hp)

/-- A run that may take more steps than its potential ends with the first state that has no work
left. -/
theorem Sane.runUpTo_eq_finished {memo : Memo} {n : Nat} (h : s.Sane p) (hinit : s.Initial memo)
    (hfinite : p.table.FiniteChains) (hn : s.potential p < n) :
    ∃ k ≤ s.potential p, ((Solver.step p.table)^[k] s).queue.isEmpty = true ∧
      (∀ j < k, ((Solver.step p.table)^[j] s).queue.isEmpty = false) ∧
      runUpTo p.table {} n s = (.finished, (Solver.step p.table)^[k] s) := by
  have hstop : ∀ j, ({} : Limits).stop? ((Solver.step p.table)^[j] s) = _ := fun j =>
    stop?_unlimited ((h.iterate hp j).fault_eq_none hfinite)
  obtain ⟨k, hk, why, hwhy, hbefore, hrun⟩ :=
    runUpTo_eq_iterate (l := {}) (hinit.coherent p.table) hinit.stocked hn
  rw [hstop] at hwhy
  split_ifs at hwhy with hempty
  obtain rfl := Option.some.inj hwhy
  refine ⟨k, hk, hempty, fun j hj => ?_, hrun⟩
  have hbusy := hbefore j hj
  rw [hstop] at hbusy
  split_ifs at hbusy with hnot
  exact Bool.eq_false_iff.mpr hnot

end Runs

end Solver

namespace Description

/-- Everything goes round: two interfaces extend each other, an array holds itself, values are
assigned in a circle, and a method calls itself. -/
def rings : Description where
  entries := ["<Main: void main()>"]
  classes := [
    ⟨"Left", "", ["Right"], true, false, [], []⟩,
    ⟨"Right", "", ["Left"], true, false, [], []⟩,
    ⟨"Main", "", ["Left"], false, false, [], [
      ⟨"void main()", [], true, false, false,
        [("a", "Main[]"), ("x", "Main"), ("y", "java.lang.Object")], [
        { blank with op := "new", lhs := "a", type := "Main[]" },
        { blank with op := "new", lhs := "x", type := "Main" },
        { blank with op := "astore", base := "a", rhs := "a" },
        { blank with op := "astore", base := "a", rhs := "x" },
        { blank with op := "aload", lhs := "y", base := "a" },
        { blank with op := "cast", lhs := "a", rhs := "y", type := "Main[]" },
        { blank with op := "invoke", kind := "interface", lhs := "y", recv := "x",
                     method := "<Left: java.lang.Object turn(java.lang.Object)>", args := ["y"] }]⟩,
      ⟨"java.lang.Object turn(java.lang.Object)", ["x"], false, false, false,
        [("y", "java.lang.Object")], [
        { blank with op := "invoke", lhs := "y", recv := "this",
                     method := "<Main: java.lang.Object turn(java.lang.Object)>", args := ["x"] },
        { blank with op := "assign", lhs := "x", rhs := "y" },
        { blank with op := "assign", lhs := "y", rhs := "x" },
        { blank with op := "return", rhs := "y" }]⟩]⟩]

/-- The program that `rings` describes. -/
def ringsProgram : Program := rings.build.toOption.getD {}

end Description

namespace Program

open Description

variable {d : Description} {p : Program} {c : AnalysisConfig}

/-- Termination: for a loaded program without violations whose superclass chains are finite, and
without limits, the solver reaches an empty queue after finitely many steps, so that the analysis
has a result. -/
theorem analyze_terminates (hd : d.build = .ok p) (hfinite : p.table.FiniteChains)
    (hc : c.limits = {}) (hvalid : ({ p with entries := p.chosen c } : Program).violations = []) :
    ∃ k s, s = (Solver.step p.table)^[k] (.start p.hierarchy.memo (p.roots c)) ∧
      s.queue.isEmpty = true ∧ s.fault = none ∧ k < p.stepBound ∧
      (∀ j < k, ((Solver.step p.table)^[j]
        (.start p.hierarchy.memo (p.roots c))).queue.isEmpty = false) ∧
      p.solve (p.roots c) c.limits = (.finished, s) ∧
        (p.analyze c).outcome = .ok (.ofSolver s) := by
  obtain ⟨hloaded, hmemo⟩ := d.build_loaded p hd
  have hstmts := (of_violations_eq_nil hvalid).2
  have hinit := Solver.initial_start p.hierarchy.memo (p.roots c)
  have hsane : (Solver.start p.hierarchy.memo (p.roots c)).Sane p := by
    refine ⟨hinit.proper ?_, hinit.fit⟩
    rw [hmemo]
    exact Memo.faithful_empty p.table
  have hinstrs : ∀ i ∈ p.instrs, i.Faultless p.table := fun i hi =>
    faultless_of_loaded hloaded hstmts hi
  have hbound := hinit.potential_lt fun m hm =>
    roots_mem_identities hvalid m (Solver.mem_reachable_start.mp hm)
  obtain ⟨k, hk, hempty, hbusy, hrun⟩ :=
    hsane.runUpTo_eq_finished hinstrs hinit hfinite (n := p.stepBound) (by omega)
  have hsolve : p.solve (p.roots c) c.limits =
      (.finished, (Solver.step p.table)^[k] (.start p.hierarchy.memo (p.roots c))) := by
    rw [hc]
    exact hrun
  refine ⟨k, _, rfl, hempty, (hsane.iterate hinstrs k).fault_eq_none hfinite, by omega, hbusy,
    hsolve, ?_⟩
  rw [analyze_eq, if_pos (List.isEmpty_iff.mpr hvalid), hsolve]
  rfl

theorem terminates_rings : ∃ k s,
    s = (Solver.step ringsProgram.table)^[k]
      (.start ringsProgram.hierarchy.memo (ringsProgram.roots {})) ∧
      s.queue.isEmpty = true ∧ s.fault = none ∧ k < ringsProgram.stepBound ∧
      (∀ j < k, ((Solver.step ringsProgram.table)^[j]
        (.start ringsProgram.hierarchy.memo (ringsProgram.roots {}))).queue.isEmpty = false) ∧
      ringsProgram.solve (ringsProgram.roots {}) {} = (.finished, s) ∧
      (ringsProgram.analyze {}).outcome = .ok (.ofSolver s) := by
  have hbuild : rings.build = .ok ringsProgram := eq_ok_of_isSome (by decide +kernel) {}
  have hcomplete := (steady_of_build hbuild).declared_table.complete
  exact analyze_terminates (c := {}) hbuild
    ((ClassTable.finiteChains_iff hcomplete).mpr (by decide +kernel)) rfl (by decide +kernel)

end Program

end PointsTo
