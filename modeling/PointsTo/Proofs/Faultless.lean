import PointsTo.Proofs.Limits
import PointsTo.Proofs.Termination

/-!
# The analysis of a loaded program has no faults

After a program was read from a description, methods may be looked up by signatures, which only
mentions types. For any entries and limits the analysis of such a program, if its superclass chains
are finite, has a result or says why there is none: the program has violations, a limit was reached,
or the run was cancelled (`Program.analyze_faultless`). On the way every state is `Intact`: there is
no fault, and everything that a step looks up is there. In particular a call that has no defect runs
methods whose parameters have the types that the call refers to, although methods are found by the
texts of their subsignatures.
-/

namespace PointsTo

namespace Solver

variable {t : ClassTable} {s s' : Solver} {p : Program}

/-- Nothing that a step looks up is missing: reachable methods are in the table and have statements
with all their operands, work is for reachable methods and for nodes, edges end at nodes, and
numbers of objects are those of allocations. -/
structure Intact (t : ClassTable) (s : Solver) : Prop where
  fault : s.fault = none
  memo : s.memo.Faithful t
  reachable : ∀ m ∈ s.calls.reachable, ∃ M, t.method? m = some M ∧ ∀ st ∈ M.body, st.instr?.isSome
  queued : ∀ m, .method m ∈ s.queue.toList → m ∈ s.calls.reachable
  delta : ∀ {n os}, .delta n os ∈ s.queue.toList → n < s.flow.size ∧ ∀ o ∈ os, o < s.heap.size
  edge : ∀ {n e}, e ∈ s.flow.out n → e.target < s.flow.size
  pts : ∀ {n o}, o ∈ s.flow.pts n → o < s.heap.size

/-! ## Reachable methods are in the table -/

theorem Act.reachable (ht : t.Declared) {i : Instr} (h : Act t i s s') :
    ∀ m ∈ s'.calls.reachable, m ∈ s.calls.reachable ∨ ∃ M, t.method? m = some M := by
  intro m hm
  cases h with
  | draw h =>
    rw [h.calls] at hm
    exact Or.inl hm
  | call hi hcallee h =>
    rw [h.calls] at hm
    refine (mem_reachable_of_noteCall hm).imp_right ?_
    rintro rfl
    exact ⟨_, ht.id_eq hcallee ▸ hcallee⟩
  | alloc hi =>
    obtain ⟨heap, heq⟩ := s.object_frame _
    rw [heq] at hm
    exact Or.inl hm
  | wait => exact Or.inl hm

theorem reachable_step (ht : t.Declared) (s : Solver) :
    ∀ m ∈ (s.step t).calls.reachable, m ∈ s.calls.reachable ∨ ∃ M, t.method? m = some M := by
  have hmoves : ∀ {w : Work} {s s' : Solver}, Moves t w s s' →
      ∀ m ∈ s'.calls.reachable, m ∈ s.calls.reachable ∨ ∃ M, t.method? m = some M := by
    intro w s s' h
    induction h with
    | refl => exact fun m => Or.inl
    | tail _ hmove ih =>
      intro m hm
      cases hmove with
      | arrive heq new => exact ih m hm
      | draw h =>
        rw [h.calls] at hm
        exact ih m hm
      | act hi h => exact (h.reachable ht m hm).elim (ih m) Or.inr
  rcases step_cases t s with ⟨-, heq⟩ | ⟨w, queue, -, h⟩
  · rw [heq]
    exact fun m => Or.inl
  · exact fun m hm => hmoves h m hm

/-! ## Runs -/

theorem Sane.intact (h : s.Sane p) (hfinite : p.table.FiniteChains)
    (hknown : ∀ m ∈ s.calls.reachable, ∃ M, p.table.method? m = some M)
    (hvalid : ∀ id m, p.table.method? id = some m →
      ∀ st ∈ m.body, m.checkStmt p.table st = .ok ()) :
    s.Intact p.table where
  fault := h.fault_eq_none hfinite
  memo := h.proper.memo
  reachable m hm := by
    obtain ⟨M, hM⟩ := hknown m hm
    refine ⟨M, hM, fun st hst => ?_⟩
    obtain ⟨i, hi⟩ := Method.instr?_of_checkStmt (hvalid m M hM st hst)
    exact Option.isSome_iff_exists.mpr ⟨i, hi⟩
  queued m hm := h.proper.queued_reachable m (mem_queued.mpr hm)
  delta hmem := ⟨(h.proper.delta hmem).1, (h.proper.delta hmem).2.lt⟩
  edge he := h.proper.flow.target_lt he
  pts ho := (h.proper.pts _).lt _ ho

end Solver

namespace Program

open Description

variable {d : Description} {p q : Program}

/-! ## Looking up methods -/

/-- The program after methods were looked up. -/
def afterLookups (p : Program) (signatures : List String) : Program :=
  signatures.foldl (fun p s => (p.lookup s).2) p

theorem loaded_afterLookups (hp : p.table.Loaded) (hm : p.hierarchy.memo = {})
    (signatures : List String) :
    (p.afterLookups signatures).table.Loaded ∧ (p.afterLookups signatures).hierarchy.memo = {} := by
  induction signatures generalizing p with
  | nil => exact ⟨hp, hm⟩
  | cons s ss ih =>
    refine ih (p := (p.lookup s).2) ?_ ?_
    · rw [snd_lookup]
      exact hp.mentionTypes _
    · rw [snd_lookup]
      exact hm

/-! ## The analysis -/

/-- Where a run of a valid program starts there are methods. -/
theorem method?_of_mem_start {c : AnalysisConfig}
    (hvalid : ({ q with entries := q.chosen c } : Program).violations = []) {memo : Memo}
    {m : MethodId}
    (hm : m ∈ (Solver.start memo (q.roots c)).calls.reachable) : ∃ M,
      q.table.method? m = some M := by
  obtain ⟨e, he, rfl⟩ := List.mem_filterMap.mp (Solver.mem_reachable_start.mp hm)
  obtain ⟨id, M, hid, hM, -⟩ := (of_violations_eq_nil hvalid).1 _ he
  exact ⟨M, Option.some.inj hid ▸ hM⟩

section Loaded

variable {c : AnalysisConfig} (hloaded : q.table.Loaded) (hmemo : q.hierarchy.memo = {})
  (hvalid : ({ q with entries := q.chosen c } : Program).violations = [])

include hloaded hmemo hvalid

/-- Every state of a run is as it should be. -/
theorem sane_iterate (k : Nat) :
    let s := (Solver.step q.table)^[k] (.start q.hierarchy.memo (q.roots c))
    s.Sane q ∧ ∀ m ∈ s.calls.reachable, ∃ M, q.table.method? m = some M := by
  have hstmts := (of_violations_eq_nil hvalid).2
  induction k with
  | zero =>
    have hinit := Solver.initial_start q.hierarchy.memo (q.roots c)
    refine ⟨⟨hinit.proper ?_, hinit.fit⟩, fun m hm => method?_of_mem_start hvalid hm⟩
    rw [hmemo]
    exact Memo.faithful_empty q.table
  | succ k ih =>
    dsimp only
    rw [Function.iterate_succ_apply']
    refine ⟨ih.1.step fun i hi => faultless_of_loaded hloaded hstmts hi, fun m hm => ?_⟩
    exact (Solver.reachable_step hloaded.declared _ m hm).elim (ih.2 m) id

/-- Without limits the solver finishes. -/
theorem exists_solve_eq_finished (hfinite : q.table.FiniteChains) :
    ∃ s, q.solve (q.roots c) {} = (.finished, s) := by
  have hsane : (Solver.start q.hierarchy.memo (q.roots c)).Sane q :=
    (sane_iterate hloaded hmemo hvalid 0).1
  have hinit := Solver.initial_start q.hierarchy.memo (q.roots c)
  have hbound := hinit.potential_lt fun m hm =>
    roots_mem_identities hvalid m (Solver.mem_reachable_start.mp hm)
  obtain ⟨k, -, -, -, hrun⟩ := hsane.runUpTo_eq_finished
    (fun i hi => faultless_of_loaded hloaded (of_violations_eq_nil hvalid).2 hi) hinit hfinite
    (n := q.stepBound) (by omega)
  exact ⟨_, hrun⟩

end Loaded

/-- A call without a defect runs methods of the table whose parameters have the types that the call
refers to, one for each argument. -/
theorem formals_of_target (hloaded : q.table.Loaded) {id : MethodId} {m : Method}
    (hm : q.table.method? id = some m)
    {st : Stmt} (hst : st ∈ m.body) {call : Call} (hop : st.op = .call call)
    (hcheck : m.checkStmt q.table st = .ok ()) {memo : Memo} (hmemo : memo.Faithful q.table)
    {recv : Option Ty}
    {target : MethodId} (h : ((call.target q.table recv).run memo).1 = .ok (.ok target)) :
    ∃ callee, q.table.method? target = some callee ∧ call.args.length = callee.formals.length ∧
      callee.sub.params.map some = call.ref.params ∧
        callee.formals.map Var.type = call.ref.params := by
  obtain ⟨memo', hrun, -⟩ := Call.target_answers q.table call recv memo hmemo
  rw [hrun] at h
  have hreadable := (hloaded.methods id m hm).body st hst call hop
  obtain ⟨callee, hcallee, hparams, htypes⟩ := hreadable.target_of_resolve hloaded h
  obtain ⟨hargs, -⟩ := Method.of_checkCall (Method.checkCall_of_checkStmt hcheck hop)
  exact ⟨callee, hcallee, Call.length_formals hargs htypes, hparams, htypes⟩

/-- The analysis of a loaded program with finite superclass chains, after any methods were looked up
in it and for any entries and limits, has a result or fails for a reason that lies in the program or
in the limits. No state on the way has a fault or lacks anything that a step looks up. Calls without
a defect run methods with parameters of the types that the calls refer to, whatever the superclass
chains are. -/
theorem analyze_faultless (hd : d.build = .ok p) (signatures : List String)
    (hq : q = p.afterLookups signatures) (c : AnalysisConfig) :
    (q.table.FiniteChains →
      ((∃ r, (q.analyze c).outcome = .ok r) ∨
        (({ q with entries := q.chosen c } : Program).violations ≠ [] ∧
          (q.analyze c).outcome =
            .error (.invalid ({ q with entries := q.chosen c } : Program).violations)) ∨
        (0 < c.limits.maxSteps ∧ (q.analyze c).outcome = .error (.budget c.limits.maxSteps.toNat)) ∨
        (c.limits.cancelAt ≠ none ∧ (q.analyze c).outcome = .error .cancelled)) ∧
      (({ q with entries := q.chosen c } : Program).violations = [] →
        ∀ k, ((Solver.step q.table)^[k] (.start q.hierarchy.memo (q.roots c))).Intact q.table)) ∧
    ∀ id m, q.table.method? id = some m → ∀ st ∈ m.body, ∀ call, st.op = .call call →
      m.checkStmt q.table st = .ok () → ∀ memo : Memo, memo.Faithful q.table → ∀ recv target,
        ((call.target q.table recv).run memo).1 = .ok (.ok target) →
          ∃ callee, q.table.method? target = some callee ∧
            call.args.length = callee.formals.length ∧
            callee.sub.params.map some = call.ref.params ∧
              callee.formals.map Var.type = call.ref.params := by
  obtain ⟨hloaded, hmemo⟩ : q.table.Loaded ∧ q.hierarchy.memo = {} := by
    obtain ⟨hp, hm⟩ := d.build_loaded p hd
    exact hq ▸ loaded_afterLookups hp hm signatures
  refine ⟨fun hfinite => ⟨?_, fun hvalid k => ?_⟩,
    fun id m hm st hst call hop hcheck memo hfaithful recv target =>
      formals_of_target hloaded hm hst hop hcheck hfaithful⟩
  · rw [analyze_eq]
    split_ifs with hvalid
    · obtain ⟨s, hfree⟩ :=
        exists_solve_eq_finished hloaded hmemo (List.isEmpty_iff.mp hvalid) hfinite
      rcases q.solve_limited (q.roots c) c.limits with
        heq | ⟨-, ⟨hwhy, hpos, hge, -⟩ | ⟨hwhy, hcancel⟩⟩
      · exact Or.inl ⟨.ofSolver s, by rw [heq, hfree]; rfl⟩
      · have hsteps : (q.solve (q.roots c) c.limits).2.steps = c.limits.maxSteps.toNat := by
          have hle := q.steps_solve_le (q.roots c) hpos
          omega
        exact Or.inr (Or.inr (Or.inl ⟨hpos, by unfold outcomeOf; rw [hwhy, hsteps]⟩))
      · exact Or.inr (Or.inr (Or.inr ⟨hcancel, by unfold outcomeOf; rw [hwhy]⟩))
    · exact Or.inr (Or.inl ⟨mt List.isEmpty_iff.mpr hvalid, rfl⟩)
  · obtain ⟨hsane, hknown⟩ := sane_iterate hloaded hmemo hvalid k
    exact hsane.intact hfinite hknown (of_violations_eq_nil hvalid).2

/-- The nodes, after one method was looked up that is there and one that is not. -/
def nodesLookedUp : Program :=
  nodesProgram.afterLookups ["<Leaf: Node push(Node)>", "<Leaf: Other pop()>"]

theorem faultless_nodes :
    ({ nodesLookedUp with entries := nodesLookedUp.chosen {} } : Program).violations = [] ∧
      (∀ k, ((Solver.step nodesLookedUp.table)^[k]
        (.start nodesLookedUp.hierarchy.memo (nodesLookedUp.roots {}))).Intact
          nodesLookedUp.table) ∧
      ∃ r, (nodesLookedUp.analyze {}).outcome = .ok r := by
  have hvalid : ({ nodesLookedUp with entries := nodesLookedUp.chosen {} } : Program).violations =
      [] := by
    decide +kernel
  obtain ⟨hloaded, hmemo⟩ := nodes.build_loaded _ build_nodes
  have hcomplete : nodesLookedUp.table.Complete :=
    (loaded_afterLookups hloaded hmemo _).1.declared.complete
  have hfinite : nodesLookedUp.table.FiniteChains :=
    (ClassTable.finiteChains_iff hcomplete).mpr (by decide +kernel)
  obtain ⟨houtcome, hintact⟩ :=
    (analyze_faultless build_nodes _ (q := nodesLookedUp) rfl {}).1 hfinite
  refine ⟨hvalid, hintact hvalid, ?_⟩
  rcases houtcome with h | ⟨hinvalid, -⟩ | ⟨hpos, -⟩ | ⟨hcancel, -⟩
  · exact h
  · exact absurd hvalid hinvalid
  · exact absurd hpos (by decide)
  · exact absurd rfl hcancel

end Program

end PointsTo
