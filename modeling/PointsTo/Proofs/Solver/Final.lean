import PointsTo.Proofs.Solver.Justification
import PointsTo.Proofs.Validation

/-!
# The last state of a finished run

The last state of a finished run has no work left, so the balance that steps keep says that every
object has arrived everywhere it can flow to, and that every statement has had its effects for all
objects (`Final`).

1. `mem_solution_pts` says what the state has at a place by allocations, without the numbers of
   objects.
2. `Final.flow`, `Final.linked` and `Final.obeys` read the effects of edges, calls and statements as
   constraints on allocations. Their sum is `closed_of_solve`: the solution that the state stands
   for is closed.
-/

namespace PointsTo

/-! ## Runs of the analysis -/

namespace Program

variable {p : Program} {c : AnalysisConfig} {r : Result} {s : Solver} {entries : List MethodId}
  {l : Limits}

/-- The entries of a run: those of the configuration or, if it has none, those of the program. -/
def chosen (p : Program) (c : AnalysisConfig) : List (Option MethodId) :=
  if c.entries.isEmpty then p.entries else c.entries

/-- The methods in which a run begins. -/
def roots (p : Program) (c : AnalysisConfig) : List MethodId := (p.chosen c).filterMap fun m => m

/-- What a stopped run of the solver means for the analysis. -/
def outcomeOf (run : Stop × Solver) : Except AnalysisError Result :=
  match run.1 with
  | .finished => .ok (.ofSolver run.2)
  | .budget n => .error (.budget n)
  | .cancelled => .error .cancelled
  | .fault f => .error (.fault f)

theorem analyze_eq (p : Program) (c : AnalysisConfig) : p.analyze c =
    if ({ p with entries := p.chosen c } : Program).violations.isEmpty then
      ⟨outcomeOf (p.solve (p.roots c) c.limits), some (p.solve (p.roots c) c.limits).2⟩
    else ⟨.error (.invalid ({ p with entries := p.chosen c } : Program).violations), none⟩ := rfl

theorem outcomeOf_eq_ok {run : Stop × Solver} (h : outcomeOf run = .ok r) :
    run.1 = .finished ∧ r = .ofSolver run.2 := by
  obtain ⟨why, s⟩ := run
  cases why with
  | finished => exact ⟨rfl, (Except.ok.inj h).symm⟩
  | _ => exact nomatch h

/-- A result comes from a program without violations and from a finished run of the solver. -/
theorem of_analyze_eq_ok (h : (p.analyze c).outcome = .ok r) :
    ({ p with entries := p.chosen c } : Program).violations = [] ∧
      ∃ s, p.solve (p.roots c) c.limits = (.finished, s) ∧ r = .ofSolver s := by
  rw [analyze_eq] at h
  split_ifs at h with hvalid
  obtain ⟨hfinished, hr⟩ := outcomeOf_eq_ok h
  exact ⟨List.isEmpty_iff.mp hvalid, _, Prod.ext hfinished rfl, hr⟩

/-- What holds of the first state and is kept by steps holds of the last state. -/
theorem solve_induction {q : Solver → Prop} (hstart : q (.start p.hierarchy.memo entries))
    (hstep : ∀ s, s.fault = none → q s → q (s.step p.table)) : q (p.solve entries l).2 := by
  unfold solve
  dsimp only
  split_ifs
  · exact hstart
  · exact Solver.runUpTo_induction hstep _ hstart

theorem solve_finished (h : p.solve entries l = (.finished, s)) :
    s.fault = none ∧ s.queue.toList = [] := by
  unfold solve at h
  dsimp only at h
  split_ifs at h
  · exact nomatch congrArg Prod.fst h
  · exact Solver.runUpTo_finished _ h

end Program

namespace Solver

/-- The last state of a finished run. -/
structure Final (t : ClassTable) (entries : List MethodId) (s : Solver) : Prop where
  proper : s.Proper t
  balanced : s.Balanced t
  work : s.queue.toList = []
  entries : ∀ m ∈ entries, m ∈ s.calls.reachable

variable {p : Program} {s : Solver} {entries : List MethodId} {l : Limits}

theorem final_of_solve (hm : p.hierarchy.memo.Faithful p.table)
    (h : p.solve entries l = (.finished, s)) : s.Final p.table entries := by
  obtain ⟨hfault, hwork⟩ := Program.solve_finished h
  have hrun : ∀ s', s' = (p.solve entries l).2 → s'.Proper p.table ∧
      (s'.fault = none → s'.Balanced p.table) ∧ ∀ m ∈ entries, m ∈ s'.calls.reachable := by
    rintro s' rfl
    refine Program.solve_induction (q := fun s => s.Proper p.table ∧
      (s.fault = none → s.Balanced p.table) ∧ ∀ m ∈ entries, m ∈ s.calls.reachable) ?_ ?_
    · have hinit := initial_start p.hierarchy.memo entries
      exact ⟨hinit.proper hm, fun _ => hinit.balanced, fun m => mem_reachable_start.mpr⟩
    · rintro s hf ⟨hs, hb, hentries⟩
      exact ⟨hs.step, (hb hf).step hs, fun m hm => (extends_step hs).reachable m (hentries m hm)⟩
  obtain ⟨hs, hb, hentries⟩ := hrun s (by rw [h])
  exact ⟨hs, hb hfault, hwork, hentries⟩

theorem within_of_solve {σ : Solution} (hσ : σ.Closed p.table entries)
    (hcollected : ∀ id m, p.table.method? id = some m → m.Collected)
    (hm : p.hierarchy.memo.Faithful p.table) : Within p.table σ (p.solve entries l).2 := by
  refine (Program.solve_induction (q := fun s => s.Proper p.table ∧ Within p.table σ s) ?_ ?_).2
  · have hinit := initial_start p.hierarchy.memo entries
    exact ⟨hinit.proper hm, hinit.within fun m hm => hσ.entry m (mem_reachable_start.mp hm)⟩
  · rintro s - ⟨hs, hw⟩
    exact ⟨hs.step, hw.step hσ hcollected hs⟩

/-! ## What the last state says about allocations -/

variable {t : ClassTable} {q : Pointer} {o : Nat} {a b : Slot} {site : Site}

/-- The solution that a state stands for. -/
abbrev solution (s : Solver) : Solution := (Result.ofSolver s).solution

theorem mem_pointsTo_iff (h : s.flow.WellFormed) :
    o ∈ (Result.ofSolver s).pointsTo q ↔ s.Holds q o := by
  unfold Result.pointsTo Result.ofSolver
  dsimp only
  cases hq : s.flow.find? q with
  | some i => exact (h.holds_iff (FlowGraph.key?_of_find? hq)).symm
  | none =>
    refine iff_of_false ObjSet.not_mem_empty ?_
    rintro ⟨i, hi, -⟩
    exact FlowGraph.key?_ne_of_find?_eq_none hq i hi

theorem mem_pointsTo (hs : s.Proper t) : o ∈ (Result.ofSolver s).pointsTo q ↔ s.Holds q o :=
  mem_pointsTo_iff hs.flow

/-- In a proper state a place is the place of one pointer only. -/
theorem eq_of_slot?_eq (hs : s.Proper t) {q' : Pointer} (h : q.slot? s.heap = some a)
    (h' : q'.slot? s.heap = some a) : q = q' := by
  cases q <;> cases q' <;> simp only [Pointer.slot?, Option.map_eq_some_iff,
    Option.some.injEq] at h h'
  case field.field o f o' f' =>
    obtain ⟨site, ho, rfl⟩ := h
    obtain ⟨site', ho', heq⟩ := h'
    obtain ⟨rfl, rfl⟩ := Slot.field.inj heq
    rw [hs.heap ho ho']
  case elem.elem o o' =>
    obtain ⟨site, ho, rfl⟩ := h
    obtain ⟨site', ho', heq⟩ := h'
    obtain rfl := Slot.elem.inj heq
    rw [hs.heap ho ho']
  all_goals grind

theorem mem_solution_pts (hs : s.Proper t) (hq : q.slot? s.heap = some a) :
    site ∈ s.solution.pts a ↔ ∃ o, s.heap[o]? = some site ∧ s.Holds q o := by
  constructor
  · rintro ⟨q', o, hq', ho, hmem⟩
    obtain rfl := eq_of_slot?_eq hs hq hq'
    exact ⟨o, ho, (mem_pointsTo hs).mp hmem⟩
  · rintro ⟨o, ho, hholds⟩
    exact ⟨q, o, hq, ho, (mem_pointsTo hs).mpr hholds⟩

/-! ## Constraints -/

namespace Final

variable (hf : s.Final t entries)

include hf

theorem due_iff : s.Due q o ↔ s.Holds q o := by
  refine or_iff_left ?_
  rintro ⟨i, os, h, -⟩
  rw [hf.work] at h
  exact List.not_mem_nil h

theorem queued_eq_nil : s.queued = [] := by
  unfold queued
  rw [hf.work]
  rfl

/-- Allocations flow along the edges. -/
theorem flow {kind : EdgeKind} {q' : Pointer} {filter : Option Ty}
    (hedge : s.Flows kind q q' filter)
    (hq : q.slot? s.heap = some a) (hq' : q'.slot? s.heap = some b) (hmem : site ∈ s.solution.pts a)
    (hpass : ∀ type, filter = some type → t.isSubtype site.type type = true) :
      site ∈ s.solution.pts b := by
  obtain ⟨o, ho, hholds⟩ := (mem_solution_pts hf.proper hq).mp hmem
  refine (mem_solution_pts hf.proper hq').mpr ⟨o, ho, ?_⟩
  refine hf.due_iff.mp (hf.balanced.carried kind q q' filter o hedge hholds ?_)
  cases filter with
  | none => rfl
  | some type =>
    rw [passes_some (typeOf?_of_getElem? ho)]
    exact hpass type rfl

theorem flow_none {kind : EdgeKind} {q' : Pointer} (hedge : s.Flows kind q q' none)
    (hq : q.slot? s.heap = some a) (hq' : q'.slot? s.heap = some b) :
    s.solution.pts a ⊆ s.solution.pts b := fun _ hmem => hf.flow hedge hq hq' hmem nofun

/-- The statements of reachable methods have had their effects. -/
theorem done {i : Instr} (hi : s.solution.Performs t i) : ∀ e ∈ i.effects t, s.Done e := by
  obtain ⟨m, hm, M, hM, hmem⟩ := hi
  have hm' : m ∈ s.calls.reachable := of_decide_eq_true hm
  refine hf.balanced.entered m hm' ?_ M hM i hmem
  rw [hf.queued_eq_nil]
  exact List.not_mem_nil

/-- They have had their effects for the objects at their base too. -/
theorem done_on {i : Instr} (hi : s.solution.Performs t i) {v : Var} (hv : i.waitsAt? = some v)
    (hmem : site ∈ s.solution.pts (.var v)) :
    ∃ o, s.heap[o]? = some site ∧ ∀ e ∈ i.effectsOn t o (some site.type), s.Done e := by
  obtain ⟨o, ho, hholds⟩ := (mem_solution_pts (q := .var v) hf.proper rfl).mp hmem
  refine ⟨o, ho, ?_⟩
  have hwait : s.Done (.wait i) := hf.done hi _ (by rw [Instr.effects_of_waitsAt? hv]; simp)
  have hmet := hf.balanced.met i hwait v hv o hholds
  rwa [typeOf?_of_getElem? ho] at hmet

/-- A call that has had its effects is connected with what it runs. -/
theorem linked {c : Invocation} {recv : Option Nat} {site? : Option Site} {callee : Method}
    (hcollected : callee.Collected)
    (hkind : ∀ x ∈ s.calls.edges, x.site = c.stmt → x.kind = c.call.kind.dispatched)
    (hrecv : ∀ site, site? = some site → ∃ o, recv = some o ∧ s.heap[o]? = some site)
    (hdone : ∀ e ∈ c.effects t recv (site?.map Site.type), s.Done e)
    (hrun : Solution.Runs t c site? callee) : s.solution.Linked c site? callee := by
  obtain ⟨m, hres, hm⟩ := hrun
  have hlink : ∀ e ∈ c.linkEffects recv callee, s.Done e := by
    intro e he
    refine hdone e ?_
    rw [Invocation.effects_of_resolve hres hm]
    exact List.mem_cons_of_mem _ he
  have hvalue : ∀ e ∈ c.valueEffects callee, s.Done e := fun e he =>
    hlink e (List.mem_cons_of_mem _ (List.mem_append_right _ he))
  unfold Invocation.valueEffects at hvalue
  split_ifs at hvalue with hlen
  · exact (hvalue _ (List.mem_singleton_self _)).elim
  obtain ⟨⟨x, hx, hsite, hcallee⟩, hreach⟩ := hlink (.call c callee.id) List.mem_cons_self
  refine ⟨?_, decide_eq_true hreach, ?_, ?_, ?_⟩
  · have hxe : x = ⟨c.stmt, callee.id, c.call.kind.dispatched⟩ := by
      rw [← hsite, ← hcallee, ← hkind x hx hsite]
    exact hxe ▸ hx
  · intro site this hsite? hthis
    obtain ⟨o, rfl, ho⟩ := hrecv site hsite?
    have harrive : s.Done (.arrive (.var this) o) := hlink _ (List.mem_cons_of_mem _
      (List.mem_append_left _ (Invocation.mem_receiverEffects.mpr ⟨o, this, rfl, hthis, rfl⟩)))
    exact (mem_solution_pts (q := .var this) hf.proper rfl).mpr ⟨o, ho, hf.due_iff.mp harrive⟩
  · intro p hp
    exact hf.flow_none (hvalue _ (List.mem_append_left _ (List.mem_map_of_mem hp))) rfl rfl
  · intro x hx st hst v hv
    have hret : s.Done (.edge .ret (.var v) (.var x) none) := hvalue _ (List.mem_append_right _
      (Invocation.mem_resultEffects.mpr ⟨x, hx, Or.inr ⟨v, (hcollected v).mpr ⟨st, hst, hv⟩, rfl⟩⟩))
    exact hf.flow_none hret rfl rfl

/-- The constraint of a statement is its effects, read for allocations. -/
theorem obeys (hcollected : ∀ id m, t.method? id = some m → m.Collected)
    (hkind : ∀ x ∈ s.calls.edges, ∀ c, x.site.op = .call c → x.kind = c.kind.dispatched) {i : Instr}
    (hi : s.solution.Performs t i) : s.solution.Obeys t i := by
  have hdone := hf.done hi
  have hfield : ∀ {o : Nat} {site : Site} {f : Field}, s.heap[o]? = some site →
      Pointer.slot? s.heap (.field o f) = some (.field site f) := fun ho =>
    Option.map_eq_some_iff.mpr ⟨_, ho, rfl⟩
  have helem : ∀ {o : Nat} {site : Site}, s.heap[o]? = some site →
      Pointer.slot? s.heap (.elem o) = some (.elem site) := fun ho =>
    Option.map_eq_some_iff.mpr ⟨_, ho, rfl⟩
  cases i with
  | new site =>
    obtain ⟨o, ho, hdue⟩ := hdone (.alloc site) List.mem_cons_self
    exact (mem_solution_pts (q := .var site.lhs) hf.proper rfl).mpr ⟨o, ho, hf.due_iff.mp hdue⟩
  | assign x y =>
    intro hx
    have hedge : s.Done (.edge .localAssign (.var y) (.var x) none) :=
      hdone _ (by simp [Instr.effects, Instr.waitsAt?, hx])
    exact hf.flow_none hedge rfl rfl
  | cast x y type =>
    intro hx site hmem hsub
    have hedge : s.Done (.edge .cast (.var y) (.var x) (some type)) :=
      hdone _ (by simp [Instr.effects, Instr.waitsAt?, hx])
    refine hf.flow hedge rfl rfl hmem ?_
    rintro _ ⟨⟩
    exact hsub
  | staticLoad x f =>
    intro hx
    have hedge : s.Done (.edge .staticLoad (.static f) (.var x) none) :=
      hdone _ (by simp [Instr.effects, Instr.waitsAt?, hx])
    exact hf.flow_none hedge rfl rfl
  | staticStore f y =>
    intro hx
    have hedge : s.Done (.edge .staticStore (.var y) (.static f) none) :=
      hdone _ (by simp [Instr.effects, Instr.waitsAt?, hx])
    exact hf.flow_none hedge rfl rfl
  | load x b f =>
    intro hx site hmem
    obtain ⟨o, ho, hdone⟩ := hf.done_on hi (if_pos hx) hmem
    have hedge : s.Done (.edge .instanceLoad (.field o f) (.var x) none) :=
      hdone _ List.mem_cons_self
    exact hf.flow_none hedge (hfield ho) rfl
  | store b f y =>
    intro hx site hmem
    obtain ⟨o, ho, hdone⟩ := hf.done_on hi (if_pos hx) hmem
    have hedge : s.Done (.edge .instanceStore (.var y) (.field o f) none) :=
      hdone _ List.mem_cons_self
    exact hf.flow_none hedge rfl (hfield ho)
  | arrayLoad x b =>
    intro hx site hmem
    obtain ⟨o, ho, hdone⟩ := hf.done_on hi (if_pos hx) hmem
    have hedge : s.Done (.edge .arrayLoad (.elem o) (.var x) none) := hdone _ List.mem_cons_self
    exact hf.flow_none hedge (helem ho) rfl
  | arrayStore b y =>
    intro hx site hmem
    obtain ⟨o, ho, hdone⟩ := hf.done_on hi (if_pos hx) hmem
    have hedge : s.Done (.edge .arrayStore (.var y) (.elem o) none) := hdone _ List.mem_cons_self
    exact hf.flow_none hedge rfl (helem ho)
  | call c =>
    intro recv callee hmade hrun
    have hcallee : callee.Collected := hcollected _ _ hrun.choose_spec.2
    have hstmt : ∀ x ∈ s.calls.edges, x.site = c.stmt → x.kind = c.call.kind.dispatched :=
      fun x hx hsite =>
      hkind x hx c.call (hsite ▸ hi.op_stmt)
    unfold Solution.MadeOn at hmade
    split_ifs at hmade with hstatic
    · subst hmade
      have hcall : ∀ e ∈ c.effects t none none, s.Done e := by
        simpa [Instr.effects, Instr.waitsAt?, hstatic] using hdone
      exact hf.linked hcallee hstmt (by rintro _ ⟨⟩) hcall hrun
    · obtain ⟨v, site, hv, hmem, rfl⟩ := hmade
      obtain ⟨o, ho, hcall⟩ := hf.done_on hi ((if_neg hstatic).trans hv) hmem
      refine hf.linked hcallee hstmt ?_ hcall hrun
      rintro _ ⟨⟩
      exact ⟨o, rfl, ho⟩
  | ret => trivial

end Final

/-- Every method is reachable, and every place points to every allocation. Of calls it says what
kind their edges have. -/
def everything : Solution where
  reachable := Set.univ
  pts _ := Set.univ
  calls := { x | ∀ c, x.site.op = .call c → x.kind = c.kind.dispatched }

theorem closed_everything
    (hinstr : ∀ id m, t.method? id = some m → ∀ st ∈ m.body, ∃ i, st.instr? = some i) :
    everything.Closed t entries where
  entry _ _ := Set.mem_univ _
  body := by
    intro m _ M hM st hst
    obtain ⟨i, hi⟩ := hinstr m M hM st hst
    refine ⟨i, hi, ?_⟩
    cases i with
    | call c =>
      intro recv callee _ _
      refine ⟨?_, Set.mem_univ _, fun _ _ _ _ => Set.mem_univ _, fun _ _ _ _ => Set.mem_univ _,
        fun _ _ _ _ _ _ _ _ => Set.mem_univ _⟩
      intro call hcall
      obtain ⟨rfl, hop, -⟩ := Stmt.of_instr?_call hi
      rw [Op.call.inj (hop.symm.trans hcall)]
    | new site => exact Set.mem_univ _
    | ret => trivial
    | cast x y type => exact fun _ _ _ _ => Set.mem_univ _
    | assign | staticLoad | staticStore => exact fun _ _ _ => Set.mem_univ _
    | load | store | arrayLoad | arrayStore => exact fun _ _ _ _ _ => Set.mem_univ _

/-- A finished run has found a closed solution. -/
theorem closed_of_solve (hcollected : ∀ id m, p.table.method? id = some m → m.Collected)
    (hinstr : ∀ id m, p.table.method? id = some m → ∀ st ∈ m.body, ∃ i, st.instr? = some i)
    (hm : p.hierarchy.memo.Faithful p.table) (h : p.solve entries l = (.finished, s)) :
    s.solution.Closed p.table entries := by
  have hf := final_of_solve hm h
  have hkind : ∀ x ∈ s.calls.edges, ∀ c, x.site.op = .call c → x.kind = c.kind.dispatched := by
    have hw : Within p.table everything (p.solve entries l).2 :=
      within_of_solve (closed_everything hinstr) hcollected hm
    rw [h] at hw
    exact hw.edges
  refine ⟨fun m hm => decide_eq_true (hf.entries m hm), ?_⟩
  intro m hreach M hM st hst
  obtain ⟨i, hi⟩ := hinstr m M hM st hst
  exact ⟨i, hi, hf.obeys hcollected hkind ⟨m, hreach, M, hM, List.mem_filterMap.mpr ⟨st, hst, hi⟩⟩⟩

end Solver

end PointsTo
