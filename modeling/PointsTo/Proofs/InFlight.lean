import PointsTo.Proofs.Dispatches
import PointsTo.Proofs.Faultless
import PointsTo.Proofs.Solver.Delivery

/-!
# Nothing is lost in flight

Between two steps of the analysis of a valid program nothing is lost (`Solver.Lossless`): what an
edge lets through is at its target or on its way there, statements that wait have been performed for
all objects at their bases, reachable methods have been entered or will be, each once, and what is
on its way is not nothing.

A step opens with what arrives or is entered, and then owes some turns (`Solver.Owes`). The turns of
the step make up for them (`Solver.Owes.settle`), so every step keeps the balance, whatever the
memory of the program (`Program.analyze_lossless`).
-/

namespace PointsTo

namespace Solver

variable {t : ClassTable} {m₀ : Memo} {s s' : Solver} {us : List Turn} {done : List MethodId}
  {queue : Queue Work}
  {n o p : Nat} {os : ObjSet} {w : Work} {m : MethodId}

/-- What an edge lets through is at its target or on its way there. -/
def Forwards (t : ClassTable) (m₀ : Memo) (s : Solver) : Prop :=
  ∀ {n e o}, e ∈ s.flow.out n → o ∈ s.flow.pts n → admits t m₀ s.heap e.filter o →
    s.Reaches e.target o

/-- Nothing is lost between two steps, where `done` are the methods that were entered so far. -/
structure Lossless (t : ClassTable) (m₀ : Memo) (done : List MethodId) (s : Solver) : Prop where
  forwards : s.Forwards t m₀
  /-- Statements that wait at a variable have been performed for all objects there. -/
  met : ∀ {v i o}, i ∈ s.waitingAt v → s.Holds (.var v) o → s.Fired t m₀ o i
  /-- The statements of methods that were entered have been performed. -/
  wired : ∀ m ∈ done, ∃ M, t.method? m = some M ∧
    ∀ st ∈ M.body, ∃ i, st.instr? = some i ∧ s.Wired t m₀ i
  /-- Methods are entered in the order in which they became reachable. -/
  order : done ++ s.queued = s.calls.reachable
  nodup : s.calls.reachable.Nodup
  delta : ∀ {n os}, .delta n os ∈ s.queue.toList → os.isEmpty = false

/-- Nothing is lost apart from what turns will make up for. -/
structure Owes (t : ClassTable) (m₀ : Memo) (done : List MethodId) (us : List Turn) (s : Solver) :
    Prop where
  forwards : s.Forwards t m₀
  met : ∀ {v i o}, i ∈ s.waitingAt v → s.Holds (.var v) o → s.Fired t m₀ o i ∨ ⟨i, some o⟩ ∈ us
  waits : ∀ {v i o}, ⟨i, none⟩ ∈ us → i.waitsAt? = some v → s.Holds (.var v) o → ⟨i, some o⟩ ∈ us
  wired : ∀ m ∈ done, ∃ M, t.method? m = some M ∧
    ∀ st ∈ M.body, ∃ i, st.instr? = some i ∧ (s.Wired t m₀ i ∨ ⟨i, none⟩ ∈ us)
  order : done ++ s.queued = s.calls.reachable
  nodup : s.calls.reachable.Nodup
  delta : ∀ {n os}, .delta n os ∈ s.queue.toList → os.isEmpty = false

theorem Coherent.lt_of_holds (hs : s.Coherent t m₀) {q : Pointer} (ho : s.Holds q o) :
    o < s.heap.size := by
  obtain ⟨n, -, ho⟩ := ho
  exact (hs.pts n).lt o ho

/-! ## Turns -/

theorem Delivers.forwards (h : Delivers t m₀ s s') (hs : s.Coherent t m₀)
    (hforwards : s.Forwards t m₀) :
    s'.Forwards t m₀ := by
  intro n e o he ho hadmits
  rw [h.pts] at ho
  by_cases hold : e ∈ s.flow.out n
  · refine h.reaches (hforwards hold ho ?_)
    rwa [← admits_congr (h.heap o ((hs.pts n).lt o ho))]
  · exact h.carried he hold ho hadmits

/-- Turns without a fault make up for what is owed. -/
theorem Owes.settle (h : s.Owes t m₀ done us) (hs : s.Coherent t m₀)
    (hid : ∀ m M, t.method? m = some M → M.id = m) (hlt : ∀ u ∈ us, ∀ o ∈ u.object, o < s.heap.size)
    (hf : (us.foldl (turn t) s).fault = none) : (us.foldl (turn t) s).Lossless t m₀ done := by
  obtain ⟨hdelivers, hturns⟩ := turns_deliver hs hlt
  have hwaiting := (serves_turns hid hs hlt hf).waiting
  have hhad := hturns hf
  obtain ⟨ws, hws, hreach, hne⟩ := hdelivers.work
  refine ⟨hdelivers.forwards hs h.forwards,
    fun {v i o} hi ho => ?_, fun m hm => ?_, ?_, hdelivers.nodup h.nodup,
    fun {n os} hmem => ?_⟩
  · rw [hdelivers.toKeeps.holds_iff] at ho
    obtain ⟨hi, hbase⟩ := mem_waitingAt.mp hi
    rw [hwaiting] at hi
    rcases List.mem_append.mp hi with hi | hi
    · rcases h.met (mem_waitingAt.mpr ⟨hi, hbase⟩) ho with hfired | hu
      · exact hdelivers.extended.fired (hs.lt_of_holds ho) hfired
      · exact hhad _ hu
    · -- the statement was put to wait in one of the turns
      obtain ⟨⟨i', object⟩, hu, rfl⟩ := List.mem_map.mp hi
      obtain ⟨hu, hwaits⟩ := List.mem_filter.mp hu
      cases object with
      | some o' => exact absurd hwaits Bool.false_ne_true
      | none =>
        obtain ⟨v', hv'⟩ := Option.isSome_iff_exists.mp hwaits
        obtain rfl := Option.some.inj (hbase.symm.trans (Instr.base?_of_waitsAt? hv'))
        exact hhad _ (h.waits hu hv' ho)
  · obtain ⟨M, hM, hbody⟩ := h.wired m hm
    refine ⟨M, hM, fun st hst => ?_⟩
    obtain ⟨i, hi, hwired | hu⟩ := hbody st hst
    · exact ⟨i, hi, hdelivers.extended.wired hwired⟩
    · exact ⟨i, hi, hhad _ hu⟩
  · have hqueued : (us.foldl (turn t) s).queued = s.queued ++ ws.filterMap entered? := by
      unfold queued
      rw [hws, List.filterMap_append]
    rw [hqueued, hreach, ← h.order, List.append_assoc]
  · rw [hws] at hmem
    exact (List.mem_append.mp hmem).elim h.delta (hne n os)

/-! ## Openings -/

/-- The method that the next step enters, if it enters one. -/
def next? (s : Solver) : Option MethodId := s.queue.pop?.bind fun x => entered? x.1

theorem due_iff {q : Pointer} : s.Due q o ↔ ∃ n, s.flow.key? n = some q ∧ s.Reaches n o := by
  constructor
  · rintro (⟨n, hn, ho⟩ | ⟨n, os, hmem, hn, ho⟩)
    · exact ⟨n, hn, Or.inl ho⟩
    · exact ⟨n, hn, Or.inr ⟨os, hmem, ho⟩⟩
  · rintro ⟨n, hn, ho | ⟨os, hmem, ho⟩⟩
    · exact Or.inl ⟨n, hn, ho⟩
    · exact Or.inr ⟨n, os, hmem, hn, ho⟩

section Openings

variable (hpop : s.queue.pop? = some (w, queue))

include hpop

theorem queued_eq_taken : s.queued = (entered? w).toList ++ (s.taken queue).queued := by
  unfold queued
  rw [Queue.toList_of_pop? hpop, List.filterMap_cons]
  cases entered? w <;> rfl

theorem next?_eq : s.next? = entered? w := by
  unfold next?
  rw [hpop]
  rfl

theorem Lossless.order_taken (h : s.Lossless t m₀ done) :
    done ++ ((entered? w).toList ++ (s.taken queue).queued) = s.calls.reachable := by
  rw [← queued_eq_taken hpop, h.order]

theorem Lossless.delta_taken (h : s.Lossless t m₀ done)
    (hmem : .delta n os ∈ (s.taken queue).queue.toList) :
    os.isEmpty = false :=
  h.delta (Queue.toList_of_pop? hpop ▸ List.mem_cons_of_mem w hmem)

/-- Taking a piece of work loses nothing if its objects have arrived before. -/
theorem reaches_taken (hw : ∀ n os, w = .delta n os → ∀ o ∈ os, o ∈ s.flow.pts n)
    (h : s.Reaches n o) :
    (s.taken queue).Reaches n o := by
  rcases h with ho | ⟨os, hmem, ho⟩
  · exact Or.inl ho
  · rcases List.mem_cons.mp (Queue.toList_of_pop? hpop ▸ hmem) with rfl | hmem
    · exact Or.inl (hw n os rfl o ho)
    · exact Or.inr ⟨os, hmem, ho⟩

end Openings

theorem mem_pts_join {fresh : ObjSet} (hp : p < s.flow.size) :
    o ∈ (s.join p fresh).flow.pts n ↔ o ∈ s.flow.pts n ∨ n = p ∧ o ∈ fresh := by
  show o ∈ (s.flow.addPts p fresh).pts n ↔ _
  by_cases hn : n = p
  · subst hn
    rw [FlowGraph.pts_addPts_self hp, ObjSet.mem_union]
    simp
  · rw [FlowGraph.pts_addPts_of_ne hn]
    simp [hn]

section Arrival

variable (hpop : s.queue.pop? = some (.delta p os, queue)) (hp : p < s.flow.size)

include hpop hp

/-- Objects that are taken from the queue join what their node points to, so they are not lost. -/
theorem reaches_join (h : s.Reaches n o) :
    ((s.taken queue).join p (os.diff (s.flow.pts p))).Reaches n o := by
  rcases h with ho | ⟨os', hmem, ho⟩
  · exact Or.inl ((mem_pts_join (s := s.taken queue) hp).mpr (Or.inl ho))
  · rcases List.mem_cons.mp (Queue.toList_of_pop? hpop ▸ hmem) with heq | hmem
    · obtain ⟨rfl, rfl⟩ := Work.delta.inj heq
      refine Or.inl ((mem_pts_join (s := s.taken queue) hp).mpr ?_)
      by_cases hold : o ∈ s.flow.pts n
      · exact Or.inl hold
      · exact Or.inr ⟨rfl, ObjSet.mem_diff.mpr ⟨ho, hold⟩⟩
    · exact Or.inr ⟨os', hmem, ho⟩

theorem extends_join : s.Extends ((s.taken queue).join p (os.diff (s.flow.pts p))) where
  holds := by
    rintro q o ⟨n, hn, ho⟩
    exact ⟨n, (FlowGraph.key?_addPts ..).trans hn, (mem_pts_join (s := s.taken queue) hp).mpr
      (Or.inl ho)⟩
  due := by
    intro q o hdue
    obtain ⟨n, hn, ho⟩ := due_iff.mp hdue
    exact due_iff.mpr ⟨n, (FlowGraph.key?_addPts ..).trans hn, reaches_join hpop hp ho⟩
  flows := FlowGraph.flows_addPts.mpr
  heap := id
  waiting _ := id
  reachable _ := id
  edges _ := id
  diagnostics _ := id

end Arrival

namespace Lossless

variable (h : s.Lossless t m₀ done)

include h

theorem wired_extends {first : Solver} (hext : s.Extends first) (us : List Turn) (hm : m ∈ done) :
    ∃ M, t.method? m = some M ∧ ∀ st ∈ M.body, ∃ i, st.instr? = some i ∧ (first.Wired t m₀ i ∨
      ⟨i, none⟩ ∈ us) := by
  obtain ⟨M, hM, hbody⟩ := h.wired m hm
  refine ⟨M, hM, fun st hst => ?_⟩
  obtain ⟨i, hi, hwired⟩ := hbody st hst
  exact ⟨i, hi, Or.inl (hext.wired hwired)⟩

variable (hs : s.Coherent t m₀)

include hs

/-- All objects are there already. -/
theorem owes_known (hpop : s.queue.pop? = some (.delta p os, queue))
    (hknown : ∀ o ∈ os, o ∈ s.flow.pts p) :
    (s.taken queue).Owes t m₀ done [] := by
  have hw : ∀ n os', Work.delta p os = .delta n os' → ∀ o ∈ os', o ∈ s.flow.pts n := by
    intro n os' heq
    obtain ⟨rfl, rfl⟩ := Work.delta.inj heq
    exact hknown
  have hext := extends_taken hpop hw
  exact ⟨fun he ho hadmits => reaches_taken hpop hw (h.forwards he ho hadmits),
    fun hi ho => Or.inl (hext.fired (hs.lt_of_holds ho) (h.met hi ho)),
      fun hu => absurd hu List.not_mem_nil,
    fun m hm => h.wired_extends hext _ hm, h.order_taken hpop, h.nodup, h.delta_taken hpop⟩

/-- Objects arrive and are sent on, and the statements that wait for them are owed their turns. -/
theorem owes_arrive {first : Solver} (hpop : s.queue.pop? = some (.delta p os, queue))
    (hp : p < s.flow.size)
    (hspreads : Spreads t m₀ ((s.taken queue).join p (os.diff (s.flow.pts p))) first)
    (hsends : Delivers t m₀ ((s.taken queue).join p (os.diff (s.flow.pts p))) first)
    (hsent : ∀ e ∈ s.flow.out p, ∀ o ∈ os.diff (s.flow.pts p), admits t m₀ s.heap e.filter o →
      first.Reaches e.target o) : first.Owes t m₀ done (s.agenda t (.delta p os)) := by
  obtain ⟨q, hq⟩ := FlowGraph.exists_key? hp
  have hout : ∀ n, ((s.taken queue).join p (os.diff (s.flow.pts p))).flow.out n = s.flow.out n :=
    FlowGraph.out_addPts s.flow p _
  have hext := (extends_join hpop hp).trans hsends.extended
  refine ⟨fun {n e o} he ho hadmits => ?_, fun {v i o} hi ho => ?_,
    fun hu => ?_, fun m hm => h.wired_extends hext _ hm,
    ?_, ?_, fun {n os'} hmem => ?_⟩
  · rw [hsends.pts] at ho
    by_cases hold : e ∈ s.flow.out n
    · have hadmits' : admits t m₀ s.heap e.filter o := by
        rw [hspreads.heap] at hadmits
        exact hadmits
      rcases (mem_pts_join (s := s.taken queue) hp).mp ho with ho | ⟨rfl, ho⟩
      · exact hsends.reaches (reaches_join hpop hp (h.forwards hold ho hadmits'))
      · exact hsent e hold o ho hadmits'
    · exact hsends.carried he (hout n ▸ hold) ho hadmits
  · obtain ⟨hi, hbase⟩ := mem_waitingAt.mp hi
    rw [hspreads.waiting] at hi
    have hi : i ∈ s.waitingAt v := mem_waitingAt.mpr ⟨hi, hbase⟩
    rcases (FlowGraph.holds_addPts hq).mp (hsends.toKeeps.holds_iff.mp ho) with ho | ⟨rfl, ho⟩
    · exact Or.inl (hext.fired (hs.lt_of_holds ho) (h.met hi ho))
    · exact Or.inr (mem_agenda_delta hq ho hi)
  · exact absurd rfl (object_of_mem_agenda_delta hu)
  · rw [hspreads.queued, hspreads.calls]
    exact h.order_taken hpop
  · rw [hspreads.calls]
    exact h.nodup
  · obtain ⟨ws, hws, -, hne⟩ := hsends.work
    rw [hws] at hmem
    exact (List.mem_append.mp hmem).elim (h.delta_taken hpop) (hne n os')

/-- A method is entered, and its statements are owed their turns. -/
theorem owes_enter (hpop : s.queue.pop? = some (.method m, queue)) {M : Method}
    (hM : t.method? m = some M)
    (hstmts : ∀ st ∈ M.body, ∃ i, st.instr? = some i) :
    ((s.taken queue).tell (.reachable m)).Owes t m₀ (done ++ [m]) (s.agenda t (.method m)) := by
  have hw : ∀ n os, Work.method m = .delta n os → ∀ o ∈ os, o ∈ s.flow.pts n := by
    rintro n os ⟨⟩
  have hext : s.Extends ((s.taken queue).tell (.reachable m)) := { extends_taken hpop hw with }
  refine ⟨fun {n e o} he ho hadmits => ?_,
    fun hi ho => Or.inl (hext.fired (hs.lt_of_holds ho) (h.met hi ho)),
    fun {v i o} hu hv ho => ?_, fun m' hm' => ?_, ?_, h.nodup, h.delta_taken hpop⟩
  · have hreaches : (s.taken queue).Reaches e.target o :=
      reaches_taken hpop hw (h.forwards he ho hadmits)
    exact hreaches
  · obtain ⟨i', hi', hu⟩ := (mem_agenda_method hM).mp hu
    obtain rfl : i = i' := instr_of_mem_turnsOf hu
    have ho : o ∈ s.objectsAt v := (mem_objectsAt_iff hs.flow).mpr ho
    refine (mem_agenda_method hM).mpr ⟨i, hi',
      List.mem_cons_of_mem _ (List.mem_map.mpr ⟨o, ?_, rfl⟩)⟩
    exact List.mem_flatMap.mpr ⟨v, Option.mem_toList.mpr hv, ho⟩
  · rcases List.mem_append.mp hm' with hm' | hm'
    · exact h.wired_extends hext _ hm'
    · rw [List.mem_singleton.mp hm']
      refine ⟨M, hM, fun st hst => ?_⟩
      obtain ⟨i, hi⟩ := hstmts st hst
      exact ⟨i, hi, Or.inr ((mem_agenda_method hM).mpr ⟨i, List.mem_filterMap.mpr ⟨st, hst, hi⟩,
        List.mem_cons_self⟩)⟩
  · rw [List.append_assoc]
    exact h.order_taken hpop

end Lossless

/-! ## Steps -/

/-- A step begins by owing turns. -/
theorem Lossless.owes_opened (h : s.Lossless t m₀ done) (hs : s.Coherent t m₀)
    (hknown : ∀ m ∈ s.calls.reachable, ∃ M, t.method? m = some M)
    (hstmts : ∀ m M, t.method? m = some M → ∀ st ∈ M.body, ∃ i, st.instr? = some i) :
    (s.opened t).Owes t m₀ (done ++ s.next?.toList) (s.turns t) := by
  unfold opened turns
  cases hpop : s.queue.pop? with
  | none =>
    have hnext : s.next? = none := by
      unfold next?
      rw [hpop]
      rfl
    rw [hnext, Option.toList_none, List.append_nil]
    exact ⟨h.forwards, fun hi ho => Or.inl (h.met hi ho), fun hu => absurd hu List.not_mem_nil,
      fun m hm => h.wired_extends (.refl s) _ hm, h.order, h.nodup, h.delta⟩
  | some x =>
    obtain ⟨w, queue⟩ := x
    rw [next?_eq hpop]
    cases w with
    | delta p os =>
      obtain ⟨hp, hos⟩ := hs.delta (Queue.toList_of_pop? hpop ▸ List.mem_cons_self)
      rw [entered?, Option.toList_none, List.append_nil]
      dsimp only
      by_cases hempty : (os.diff (s.flow.pts p)).isEmpty
      · have hfirst : (s.taken queue).opening t (.delta p os) = s.taken queue := if_pos hempty
        rw [hfirst, agenda_of_isEmpty hempty]
        exact h.owes_known hs hpop (ObjSet.subset_of_isEmpty_diff hempty)
      · have hfirst : (s.taken queue).opening t (.delta p os) = (s.taken queue).arrive t p _ :=
          if_neg hempty
        have htaken := hs.taken hpop
        rw [hfirst]
        exact h.owes_arrive hs hpop hp (arrive_spreads htaken hp hos)
          (arrive_delivers htaken hp hos).1
          (arrive_delivers htaken hp hos).2
    | method m =>
      have hm : m ∈ s.calls.reachable :=
        hs.queued_reachable m (mem_queued.mpr (Queue.toList_of_pop? hpop ▸ List.mem_cons_self))
      obtain ⟨M, hM⟩ := hknown m hm
      exact h.owes_enter hs hpop hM (hstmts m M hM)

/-- Every step without a fault keeps the balance. -/
theorem Lossless.step (h : s.Lossless t m₀ done) (hs : s.Coherent t m₀)
    (hid : ∀ m M, t.method? m = some M → M.id = m)
    (hknown : ∀ m ∈ s.calls.reachable, ∃ M, t.method? m = some M)
    (hstmts : ∀ m M, t.method? m = some M → ∀ st ∈ M.body, ∃ i, st.instr? = some i)
    (hf : (s.step t).fault = none) : (s.step t).Lossless t m₀ (done ++ s.next?.toList) := by
  have hopens := opens_opened hs
  rw [step_eq_turns hs] at hf ⊢
  exact (h.owes_opened hs hknown hstmts).settle (hopens.coherent hs) hid
    (fun _ hu => hopens.object_lt hs hu) hf

theorem Initial.lossless {memo : Memo} (h : s.Initial memo) : s.Lossless t memo [] where
  forwards := by
    intro n e o he
    rw [h.flow, FlowGraph.out_eq_of_size_le (Nat.zero_le n)] at he
    exact absurd he List.not_mem_nil
  met := by
    intro v i o hi
    have hi := (mem_waitingAt.mp hi).1
    rw [h.waiting] at hi
    exact absurd hi List.not_mem_nil
  wired _ hm := absurd hm List.not_mem_nil
  order := h.queued
  nodup := h.nodup
  delta hmem := absurd hmem h.not_mem_delta

end Solver

/-! ## Runs -/

namespace Program

variable {p : Program} {c : AnalysisConfig}

/-- The methods that were entered in the first `k` steps, in order. -/
def entered (p : Program) (c : AnalysisConfig) (k : Nat) : List MethodId :=
  (List.range k).filterMap fun j => (p.stateAfter c j).next?

theorem entered_succ (p : Program) (c : AnalysisConfig) (k : Nat) :
    p.entered c (k + 1) = p.entered c k ++ (p.stateAfter c k).next?.toList := by
  unfold entered
  rw [List.range_succ, List.filterMap_append]
  cases h : (p.stateAfter c k).next? <;> simp [h]

section Valid

variable (hp : p.table.Declared)
  (hvalid : ({ p with entries := p.chosen c } : Program).violations = [])

include hp hvalid

theorem method?_of_mem_stateAfter {k : Nat} {m : MethodId}
    (hm : m ∈ (p.stateAfter c k).calls.reachable) :
    ∃ M, p.table.method? m = some M := by
  induction k with
  | zero => exact method?_of_mem_start hvalid hm
  | succ k ih =>
    rw [stateAfter_succ] at hm
    exact (Solver.reachable_step hp _ m hm).elim ih id

theorem lossless_stateAfter {k : Nat} (hf : (p.stateAfter c k).fault = none) :
    (p.stateAfter c k).Lossless p.table p.hierarchy.memo (p.entered c k) := by
  induction k with
  | zero => exact (Solver.initial_start p.hierarchy.memo (p.roots c)).lossless
  | succ k ih =>
    rw [stateAfter_succ] at hf ⊢
    rw [entered_succ]
    have hs := p.coherent_stateAfter c k
    exact (ih (Solver.fault_step hs hf)).step hs (fun _ _ hM => hp.id_eq hM)
      (fun m hm => method?_of_mem_stateAfter hp hvalid hm)
      (fun m M hM st hst => Method.instr?_of_checkStmt
        ((of_violations_eq_nil hvalid).2 m M hM st hst)) hf

/-- Nothing is lost in flight. Between any two steps of the analysis of a valid program what an edge
lets through is at its target or on its way there; statements that wait at a variable have been
performed for all objects there; the methods that were entered and those that are queued are the
reachable ones, each once, and the statements of the former have been performed; and all work is for
nodes that exist and brings objects that exist, at least one. Type filters and calls get the answers
of the memory before the run. A run goes on only while there is no fault, which a program that was
loaded has only where a search goes up a superclass chain without end. -/
theorem analyze_lossless :
    (∀ k s, s = p.stateAfter c k → s.fault = none →
      (∀ n e o, e ∈ s.flow.out n → o ∈ s.flow.pts n →
        Solver.admits p.table p.hierarchy.memo s.heap e.filter o →
        o ∈ s.flow.pts e.target ∨ ∃ os, .delta e.target os ∈ s.queue.toList ∧ o ∈ os) ∧
      (∀ v i o, i ∈ s.waitingAt v → s.Holds (.var v) o → s.Fired p.table p.hierarchy.memo o i) ∧
      (p.entered c k ++ s.queued = s.calls.reachable ∧ s.calls.reachable.Nodup ∧
        ∀ m ∈ p.entered c k, ∃ M, p.table.method? m = some M ∧
          ∀ st ∈ M.body, ∃ i, st.instr? = some i ∧ s.Wired p.table p.hierarchy.memo i) ∧
      ∀ n os, .delta n os ∈ s.queue.toList → n < s.flow.size ∧ (∃ o, o ∈ os) ∧
        ∀ o ∈ os, o < s.heap.size) ∧
    (∀ k, Memo.Same p.table p.hierarchy.memo (p.stateAfter c k).memo) ∧
    (∃ s, (p.analyze c).solver = some s ∧ s = p.stateAfter c s.steps ∧
      ∀ k < s.steps, (p.stateAfter c k).fault = none) ∧
    (p.table.Loaded → p.hierarchy.memo = {} →
      ∀ k f, (p.stateAfter c k).fault = some f → p.table.Unending f) := by
  refine ⟨?_, fun k => (p.coherent_stateAfter c k).memo, ?_, fun hloaded hmemo k => ?_⟩
  · rintro k s rfl hf
    have hs := p.coherent_stateAfter c k
    have h := lossless_stateAfter hp hvalid hf
    refine ⟨fun n e o he ho hadmits => h.forwards he ho hadmits, fun v i o hi ho => h.met hi ho,
      ⟨h.order, h.nodup, h.wired⟩, fun n os hmem => ?_⟩
    obtain ⟨hn, hos⟩ := hs.delta hmem
    exact ⟨hn, List.exists_mem_of_ne_nil _ (List.isEmpty_eq_false_iff.mp (h.delta hmem)), hos.lt⟩
  · have hsolver : (p.analyze c).solver = some (p.solve (p.roots c) c.limits).2 := by
      rw [analyze_eq, if_pos (List.isEmpty_iff.mpr hvalid)]
    exact ⟨_, hsolver, stateAfter_of_solver hsolver⟩
  · obtain ⟨hsane, -⟩ := sane_iterate hloaded hmemo hvalid k
    exact hsane.fit.fault

end Valid

open Description

/-- After seven steps a leaf is on its way along the edge of a cast, and one of three methods is
still to be entered. -/
theorem lossless_nodes :
    let s := nodesProgram.stateAfter {} 7
    (nodesProgram.entered {} 7 = [⟨"Main", "void main()"⟩, ⟨"Node", "Node push(Node)"⟩] ∧
      s.queued = [⟨"Leaf", "Node push(Node)"⟩]) ∧
    s.fault = none ∧ nodesProgram.entered {} 7 ++ s.queued = s.calls.reachable ∧
    (s.flow.pts 1 = ⟨[1]⟩ ∧ s.flow.pts 2 = {} ∧
      ∃ e ∈ s.flow.out 1, e.target = 2 ∧ e.filter.isSome ∧
        ∃ os, .delta e.target os ∈ s.queue.toList ∧ 1 ∈ os) ∧
    ∀ v i o, i ∈ s.waitingAt v → s.Holds (.var v) o →
      s.Fired nodesProgram.table nodesProgram.hierarchy.memo o i := by
  intro s
  obtain ⟨hloaded, hmemo⟩ := nodes.build_loaded _ build_nodes
  have hvalid : ({ nodesProgram with entries := nodesProgram.chosen {} } : Program).violations =
      [] := by
    decide +kernel
  obtain ⟨hlossless, -, -, hfault⟩ := analyze_lossless hloaded.declared hvalid
  have hf : s.fault = none := Option.eq_none_iff_forall_not_mem.mpr fun f hf =>
    finiteChains_nodes.not_unending (hfault hloaded hmemo 7 f hf)
  obtain ⟨hforwards, hmet, ⟨horder, -, -⟩, -⟩ := hlossless 7 s rfl hf
  obtain ⟨hsource, hempty, e, he, htarget, hfilter, hadmits⟩ : s.flow.pts 1 = ⟨[1]⟩ ∧
    s.flow.pts 2 = {} ∧
      ∃ e ∈ s.flow.out 1, e.target = 2 ∧ e.filter.isSome ∧
        Solver.admits nodesProgram.table nodesProgram.hierarchy.memo s.heap e.filter 1 := by
    decide +kernel
  have ho : 1 ∈ s.flow.pts 1 := by
    rw [hsource]
    exact List.mem_singleton_self 1
  refine ⟨by decide +kernel, hf, horder, ⟨hsource, hempty, e, he, htarget, hfilter, ?_⟩, hmet⟩
  refine (hforwards 1 e 1 he ho hadmits).resolve_left fun h => ?_
  rw [htarget, hempty] at h
  exact List.not_mem_nil h

end Program

end PointsTo
