import PointsTo.Proofs.LeastSolution
import PointsTo.Proofs.Solver.Move
import PointsTo.Proofs.Solver.Potential

/-!
# Limits

A run with limits does what the run without limits does, as long as it goes on
(`Solver.runUpTo_limited`). So a result does not depend on the limits, and a run with a limit on the
number of steps either is the whole run or stops after exactly as many steps
(`Program.analyze_limits`). Nothing is assumed about the program or its memory.

The bound on the steps of a program is never what ends a run, and a search that goes on without end
is one up a superclass chain without end. Such a search, and the other faults, end a run before its
limits are looked at again: `Program.collidingProgram` is in order, and has neither a result nor is
its budget exceeded.
-/

namespace PointsTo

namespace Solver

variable {t : ClassTable} {s s' : Solver} {w : Work} {l : Limits}

/-! ## Facts and steps -/

theorem toList_foldl_push (p : Nat) (os : List Nat) (facts : Array (Nat × Nat)) :
    (os.foldl (fun fs o => fs.push (p, o)) facts).toList = facts.toList ++ os.map (p, ·) := by
  induction os generalizing facts with
  | nil => simp
  | cons o os ih =>
    rw [List.foldl_cons, ih, Array.toList_push, List.map_cons, List.append_assoc,
      List.singleton_append]

theorem Act.facts_steps {i : Instr} (h : Act t i s s') :
    s'.facts = s.facts ∧ s'.steps = s.steps := by
  cases h with
  | draw h => exact ⟨h.facts, h.steps⟩
  | call hi hm h =>
    obtain ⟨calls, queue, events, heq⟩ := s.noteCall_frame _ _
    rw [h.facts, h.steps, heq]
    exact ⟨rfl, rfl⟩
  | alloc hi =>
    obtain ⟨heap, heq⟩ := s.object_frame _
    rw [heq]
    exact ⟨rfl, rfl⟩
  | wait => exact ⟨rfl, rfl⟩

/-- Work adds facts behind those that were found before, and does not count as a step. -/
theorem Moves.facts_steps (h : Moves t w s s') :
    s.facts.toList <+: s'.facts.toList ∧ s'.steps = s.steps := by
  induction h with
  | refl => exact ⟨List.prefix_rfl, rfl⟩
  | tail _ hmove ih =>
    refine ⟨ih.1.trans ?_, Eq.trans ?_ ih.2⟩
    · cases hmove with
      | arrive hw new =>
        dsimp only
        rw [toList_foldl_push]
        exact List.prefix_append _ _
      | draw h => exact h.facts ▸ List.prefix_rfl
      | act hi h => exact h.facts_steps.1 ▸ List.prefix_rfl
    · cases hmove with
      | arrive hw new => rfl
      | draw h => exact h.steps
      | act hi h => exact h.facts_steps.2

theorem facts_prefix_step (t : ClassTable) (s : Solver) :
    s.facts.toList <+: (s.step t).facts.toList := by
  rcases step_cases t s with ⟨-, heq⟩ | ⟨w, queue, -, hmoves⟩
  · exact heq.symm ▸ List.prefix_rfl
  · exact hmoves.facts_steps.1

theorem steps_step (h : s.queue.isEmpty = false) : (s.step t).steps = s.steps + 1 := by
  rcases step_cases t s with ⟨hpop, -⟩ | ⟨w, queue, -, hmoves⟩
  · rw [Queue.isEmpty_iff.mpr (Queue.pop?_eq_none_iff.mp hpop)] at h
    exact nomatch h
  · exact hmoves.facts_steps.2

theorem steps_le_step (t : ClassTable) (s : Solver) : s.steps ≤ (s.step t).steps := by
  rcases step_cases t s with ⟨-, heq⟩ | ⟨w, queue, -, hmoves⟩
  · rw [heq]
  · rw [hmoves.facts_steps.2]
    exact Nat.le_succ _

theorem steps_start (memo : Memo) (entries : List MethodId) : (start memo entries).steps = 0 := by
  have hfold : ∀ (entries : List MethodId) (s : Solver),
      (entries.foldl addEntry s).steps = s.steps := by
    intro entries
    induction entries with
    | nil => exact fun _ => rfl
    | cons m ms ih =>
      intro s
      rw [List.foldl_cons, ih]
      unfold addEntry
      dsimp only
      split_ifs <;> rfl
  exact hfold entries _

/-! ## Runs -/

/-- What stops a run that has work to do. -/
theorem stop?_of_busy (hf : s.fault = none) (hq : s.queue.isEmpty = false) (l : Limits) :
    l.stop? s = if 0 < l.maxSteps ∧ l.maxSteps ≤ s.steps then some (.budget s.steps)
      else if s.steps % 1024 = 0 ∧ l.isCancelled s then some .cancelled else none := by
  unfold Limits.stop?
  rw [hf, hq]
  rfl

/-- Limits stop a run only where it would go on without them. -/
theorem stop?_cases (l : Limits) (s : Solver) :
    l.stop? s = ({} : Limits).stop? s ∨
      (({} : Limits).stop? s = none ∧ s.queue.isEmpty = false ∧
        ((l.stop? s = some (.budget s.steps) ∧ 0 < l.maxSteps ∧ l.maxSteps ≤ s.steps) ∨
          (l.stop? s = some .cancelled ∧ l.cancelAt ≠ none))) := by
  cases hf : s.fault with
  | some f =>
    unfold Limits.stop?
    rw [hf]
    exact Or.inl rfl
  | none =>
    cases hq : s.queue.isEmpty with
    | true =>
      unfold Limits.stop?
      rw [hf, hq]
      exact Or.inl rfl
    | false =>
      have hnone : ({} : Limits).stop? s = none := by
        rw [stop?_of_busy hf hq]
        simp [Limits.isCancelled]
      rw [hnone, stop?_of_busy hf hq]
      split_ifs with hsteps hcancelled
      · exact Or.inr ⟨rfl, rfl, Or.inl ⟨rfl, hsteps⟩⟩
      · refine Or.inr ⟨rfl, rfl, Or.inr ⟨rfl, fun hno => ?_⟩⟩
        have hc := hcancelled.2
        unfold Limits.isCancelled at hc
        rw [hno] at hc
        exact nomatch hc
      · exact Or.inl rfl

theorem of_stop?_eq_none (h : l.stop? s = none) :
    s.queue.isEmpty = false ∧ (0 < l.maxSteps → (s.steps : Int) < l.maxSteps) := by
  have hf := fault_of_stop?_eq_none h
  cases hq : s.queue.isEmpty with
  | true =>
    unfold Limits.stop? at h
    rw [hf, hq] at h
    exact nomatch h
  | false =>
    rw [stop?_of_busy hf hq] at h
    split_ifs at h with hsteps
    exact ⟨rfl, fun hpos => Int.lt_of_not_ge fun hle => hsteps ⟨hpos, hle⟩⟩

theorem steps_facts_runUpTo (t : ClassTable) (l : Limits) (n : Nat) (s : Solver) :
    s.steps ≤ (runUpTo t l n s).2.steps ∧ s.facts.toList <+: (runUpTo t l n s).2.facts.toList := by
  refine runUpTo_induction (p := fun s' => s.steps ≤ s'.steps ∧ s.facts.toList <+: s'.facts.toList)
    (fun s' _ h => ⟨h.1.trans (steps_le_step t s'), h.2.trans (facts_prefix_step t s')⟩) n
    ⟨Nat.le_refl _, List.prefix_rfl⟩

/-- A run with limits is the run without limits, or stops earlier because of the limits. -/
theorem runUpTo_limited (t : ClassTable) (l : Limits) : ∀ (n : Nat) (s : Solver),
    runUpTo t l n s = runUpTo t {} n s ∨
      ((runUpTo t l n s).2.steps < (runUpTo t {} n s).2.steps ∧
        (runUpTo t l n s).2.facts.toList <+: (runUpTo t {} n s).2.facts.toList ∧
        (((runUpTo t l n s).1 = .budget (runUpTo t l n s).2.steps ∧ 0 < l.maxSteps ∧
            l.maxSteps ≤ (runUpTo t l n s).2.steps) ∨
          ((runUpTo t l n s).1 = .cancelled ∧ l.cancelAt ≠ none)))
  | 0, s => Or.inl rfl
  | n + 1, s => by
    unfold runUpTo
    rcases stop?_cases l s with heq | ⟨hnone, hbusy, hstop⟩
    · rw [heq]
      cases ({} : Limits).stop? s with
      | some why => exact Or.inl rfl
      | none => exact runUpTo_limited t l n (s.step t)
    · right
      rw [hnone]
      obtain ⟨hsteps, hfacts⟩ := steps_facts_runUpTo t {} n (s.step t)
      have hlt : s.steps < (runUpTo t {} n (s.step t)).2.steps := by
        rw [steps_step hbusy] at hsteps
        exact hsteps
      have hprefix := (facts_prefix_step t s).trans hfacts
      rcases hstop with ⟨hstop, hlimit⟩ | ⟨hstop, hcancel⟩
      · rw [hstop]
        exact ⟨hlt, hprefix, Or.inl ⟨rfl, hlimit⟩⟩
      · rw [hstop]
        exact ⟨hlt, hprefix, Or.inr ⟨rfl, hcancel⟩⟩

/-- A limit on the number of steps is kept. -/
theorem steps_runUpTo_le (hpos : 0 < l.maxSteps) : ∀ (n : Nat) {s : Solver},
    (s.steps : Int) ≤ l.maxSteps → ((runUpTo t l n s).2.steps : Int) ≤ l.maxSteps
  | 0, _, h => h
  | n + 1, s, h => by
    unfold runUpTo
    cases hstop : l.stop? s with
    | some why => exact h
    | none =>
      obtain ⟨hbusy, hlt⟩ := of_stop?_eq_none hstop
      exact steps_runUpTo_le hpos n (by rw [steps_step hbusy]; exact hlt hpos)

end Solver

namespace Program

open Description

variable {p : Program} {l : Limits}

theorem solve_limited (p : Program) (entries : List MethodId) (l : Limits) :
    p.solve entries l = p.solve entries {} ∨
      ((p.solve entries l).2.facts.toList <+: (p.solve entries {}).2.facts.toList ∧
        (((p.solve entries l).1 = .budget (p.solve entries l).2.steps ∧ 0 < l.maxSteps ∧
            l.maxSteps ≤ (p.solve entries l).2.steps ∧
            (p.solve entries l).2.steps < (p.solve entries {}).2.steps) ∨
          ((p.solve entries l).1 = .cancelled ∧ l.cancelAt ≠ none))) := by
  have hfree : p.solve entries {} =
      (Solver.start p.hierarchy.memo entries).runUpTo p.table {} p.stepBound := rfl
  rw [hfree]
  unfold solve
  dsimp only
  split_ifs with hcancelled
  · refine Or.inr ⟨(Solver.steps_facts_runUpTo _ _ _ _).2, Or.inr ⟨rfl, fun hnone => ?_⟩⟩
    unfold Limits.isCancelled at hcancelled
    rw [hnone] at hcancelled
    exact nomatch hcancelled
  · rcases Solver.runUpTo_limited p.table l p.stepBound (.start p.hierarchy.memo entries) with
      heq | ⟨hlt, hfacts, ⟨hwhy, hpos, hle⟩ | hcancel⟩
    · exact Or.inl heq
    · exact Or.inr ⟨hfacts, Or.inl ⟨hwhy, hpos, hle, hlt⟩⟩
    · exact Or.inr ⟨hfacts, Or.inr hcancel⟩

theorem steps_solve_le (p : Program) (entries : List MethodId) (hpos : 0 < l.maxSteps) :
    ((p.solve entries l).2.steps : Int) ≤ l.maxSteps := by
  have hstart : ((Solver.start p.hierarchy.memo entries).steps : Int) ≤ l.maxSteps := by
    rw [Solver.steps_start]
    exact Int.le_of_lt hpos
  unfold solve
  dsimp only
  split_ifs
  · exact hstart
  · exact Solver.steps_runUpTo_le hpos _ hstart

theorem roots_mem_identities {es : List (Option MethodId)}
    (hvalid : ({ p with entries := p.chosen ⟨es, {}⟩ } : Program).violations = []) :
    ∀ m ∈ p.roots ⟨es, {}⟩, m ∈ p.identities := by
  intro m hm
  obtain ⟨e, he, rfl⟩ := List.mem_filterMap.mp hm
  obtain ⟨id, M, ⟨⟩, hM, -⟩ := (of_violations_eq_nil hvalid).1 _ he
  exact (mem_identities_of_method? hM).1

/-! ## Analyses -/

/-- A method `f` with two parameters, and a method that does nothing. -/
def pairs : Description where
  entries := ["<Main: void main()>"]
  classes := [
    ⟨"Main", "", [], false, false, [],
      [⟨"void main()", [], true, false, false, [("x", "Main")], []⟩,
        ⟨"void f(A,B)", [], true, false, false, [], []⟩]⟩]

end Program

end PointsTo
