import PointsTo.Proofs.Solver.Step

/-!
# Nothing is lost

At any time between two steps the state of the solver is balanced: an object that is at the source
of an edge and passes its filter is at the target or on its way there; the statements that wait at a
variable have had their effects for every object there; and the statements of every reachable method
have had theirs, unless the method is still to be entered.

1. `Done` says that an effect has been achieved. Effects that are applied are done if no fault
   occurs (`done_of_mem`), and what is done stays done (`Extends`).
2. A step that has begun owes some effects (`Owing`), and they restore the balance
   (`Balanced.step`).
-/

namespace PointsTo.Solver

variable {t : ClassTable} {s s' : Solver} {e : Effect} {q : Pointer} {o : Nat}

/-- The effect has been achieved. -/
def Done (s : Solver) : Effect → Prop
  | .edge kind a b filter => s.Flows kind a b filter
  | .arrive q o => s.Due q o
  | .alloc site => ∃ o, s.heap[o]? = some site ∧ s.Due (.var site.lhs) o
  | .wait i => i ∈ s.waiting
  | .call c m => (∃ x ∈ s.calls.edges, x.site = c.stmt ∧ x.callee = m) ∧ m ∈ s.calls.reachable
  | .unresolved site recv e => ⟨site, recv, e⟩ ∈ s.diagnostics
  | .fault _ => False
  | .node _ | .ask .. => True

/-- Whatever the first state says, the second says too. -/
structure Extends (s s' : Solver) : Prop where
  holds : ∀ {q o}, s.Holds q o → s'.Holds q o
  due : ∀ {q o}, s.Due q o → s'.Due q o
  flows : ∀ {kind a b filter}, s.Flows kind a b filter → s'.Flows kind a b filter
  heap : ∀ {o : Nat} {site : Site}, s.heap[o]? = some site → s'.heap[o]? = some site
  waiting : ∀ i ∈ s.waiting, i ∈ s'.waiting
  reachable : ∀ m ∈ s.calls.reachable, m ∈ s'.calls.reachable
  edges : ∀ x ∈ s.calls.edges, x ∈ s'.calls.edges
  diagnostics : ∀ d ∈ s.diagnostics, d ∈ s'.diagnostics

namespace Extends

theorem refl (s : Solver) : s.Extends s :=
  ⟨id, id, id, id, fun _ => id, fun _ => id, fun _ => id, fun _ => id⟩

theorem trans {s'' : Solver} (h : s.Extends s') (h' : s'.Extends s'') : s.Extends s'' where
  holds := h'.holds ∘ h.holds
  due := h'.due ∘ h.due
  flows := h'.flows ∘ h.flows
  heap := h'.heap ∘ h.heap
  waiting i hi := h'.waiting i (h.waiting i hi)
  reachable m hm := h'.reachable m (h.reachable m hm)
  edges x hx := h'.edges x (h.edges x hx)
  diagnostics d hd := h'.diagnostics d (h.diagnostics d hd)

theorem done (h : s.Extends s') (he : s.Done e) : s'.Done e := by
  cases e with
  | edge kind a b filter => exact h.flows he
  | arrive q o => exact h.due he
  | alloc site =>
    obtain ⟨o, ho, hdue⟩ := he
    exact ⟨o, h.heap ho, h.due hdue⟩
  | wait i => exact h.waiting i he
  | call c m =>
    obtain ⟨⟨x, hx, hxe⟩, hm⟩ := he
    exact ⟨⟨x, h.edges x hx, hxe⟩, h.reachable m hm⟩
  | unresolved site recv e => exact h.diagnostics _ he
  | fault f => exact he.elim
  | _ => trivial

end Extends

theorem extends_apply (hs : s.Proper t) (e : Effect) : s.Extends (s.apply t e) where
  holds h := (holds_apply hs).mpr h
  due h := (due_apply hs).mpr (Or.inl h)
  flows h := (flows_apply hs).mpr (Or.inl h)
  heap h := (getElem?_heap_apply hs).mpr (Or.inl h)
  waiting _ h := (mem_waiting_apply hs).mpr (Or.inl h)
  reachable _ h := (mem_reachable_apply hs).mpr (Or.inl h)
  edges _ h := (mem_edges_apply hs).mpr (Or.inl h)
  diagnostics _ h := (mem_diagnostics_apply hs).mpr (Or.inl h)

theorem extends_applyAll (hs : s.Proper t) {es : List Effect}
    (hes : ∀ e ∈ es, e.Below s.heap.size) :
    s.Extends (s.applyAll t es) :=
  (applyAll_induction (p := s.Extends) (fun _ e _ hs h => h.trans (extends_apply hs e)) hs hes
    (Extends.refl s)).2

/-- What an edge lets through has arrived or is on its way, right after the edge was asked for. -/
theorem done_apply (hs : s.Proper t) (h : (s.apply t e).fault = none) : (s.apply t e).Done e := by
  obtain ⟨hf, he⟩ := (fault_apply hs).mp h
  cases e with
  | edge kind a b filter => exact (flows_apply hs).mpr (Or.inr ⟨hf, rfl⟩)
  | arrive q o => exact (due_apply hs).mpr (Or.inr ⟨hf, rfl, rfl⟩)
  | alloc site =>
    exact ⟨_, (getElem?_heap_apply hs).mpr (Or.inr ⟨hf, rfl, rfl⟩),
      (due_apply hs).mpr (Or.inr ⟨hf, rfl, rfl⟩)⟩
  | wait i => exact (mem_waiting_apply hs).mpr (Or.inr ⟨hf, rfl⟩)
  | call c m =>
    refine ⟨?_, (mem_reachable_apply hs).mpr (Or.inr ⟨hf, c, rfl⟩)⟩
    by_cases hedge : (s.calls.edgeKind? c.stmt m).isSome
    · obtain ⟨x, hx, hxe⟩ := hs.indexed.edgeKind?_isSome_iff.mp hedge
      exact ⟨x, (mem_edges_apply hs).mpr (Or.inl hx), hxe⟩
    · exact ⟨_, (mem_edges_apply hs).mpr (Or.inr ⟨hf, c, m, rfl, hedge, rfl⟩), rfl, rfl⟩
  | unresolved site recv e => exact (mem_diagnostics_apply hs).mpr (Or.inr ⟨hf, rfl⟩)
  | fault f => exact nomatch he
  | _ => trivial

theorem fault_eq_none_of_applyAll {es : List Effect} (h : (s.applyAll t es).fault = none) :
    s.fault = none := by
  by_contra hf
  rw [applyAll_of_fault (Option.isSome_iff_ne_none.mpr hf)] at h
  exact hf h

/-- Effects that were applied are done, if no fault occurred. -/
theorem done_of_mem {es : List Effect} : ∀ {s : Solver}, s.Proper t →
    (∀ e ∈ es, e.Below s.heap.size) → (s.applyAll t es).fault = none →
    ∀ e ∈ es, (s.applyAll t es).Done e := by
  induction es with
  | nil => exact fun _ _ _ e he => absurd he List.not_mem_nil
  | cons e es ih =>
    intro s hs hbelow hf e' he'
    have hs' : (s.apply t e).Proper t := hs.apply (hbelow e List.mem_cons_self)
    have hbelow' : ∀ e' ∈ es, e'.Below (s.apply t e).heap.size := fun e' he' =>
      (hbelow e' (List.mem_cons_of_mem _ he')).mono (size_heap_le_apply hs e)
    rw [applyAll_cons] at hf ⊢
    rcases List.mem_cons.mp he' with rfl | he'
    · exact (extends_applyAll hs' hbelow').done (done_apply hs (fault_eq_none_of_applyAll hf))
    · exact ih hs' hbelow' hf e' he'

/-! ## Lists of effects -/

section Lists

variable {es : List Effect} (hs : s.Proper t) (hes : ∀ e ∈ es, e.Below s.heap.size)

include hs hes

theorem holds_applyAll : (s.applyAll t es).Holds q o ↔ s.Holds q o :=
  (applyAll_induction (p := fun s' => s'.Holds q o ↔ s.Holds q o)
    (fun _ _ _ hs h => (holds_apply hs).trans h) hs hes Iff.rfl).2

theorem typeOf?_applyAll (ho : o < s.heap.size) : (s.applyAll t es).typeOf? o = s.typeOf? o :=
  (applyAll_induction (p := s.Sees) (fun _ e _ hs h => h.apply hs e) hs hes
    (Sees.refl s)).2.types o ho

theorem mem_waiting_applyAll {i : Instr} (h : i ∈ (s.applyAll t es).waiting) :
    i ∈ s.waiting ∨ .wait i ∈ es := by
  refine (applyAll_induction (p := fun s' => ∀ i ∈ s'.waiting, i ∈ s.waiting ∨ .wait i ∈ es) ?_
    hs hes fun _ => Or.inl).2 i h
  intro s' e he hs' hp i hi
  rcases (mem_waiting_apply hs').mp hi with hi | ⟨-, rfl⟩
  · exact hp i hi
  · exact Or.inr he

theorem mem_queued_applyAll {m : MethodId} (h : m ∈ s.queued) : m ∈ (s.applyAll t es).queued :=
  (applyAll_induction (p := fun s' => m ∈ s'.queued)
    (fun _ _ _ hs h => (mem_queued_apply hs).mpr (Or.inl h)) hs hes h).2

/-- Methods that have become reachable are still to be entered. -/
theorem mem_reachable_applyAll {m : MethodId} (h : m ∈ (s.applyAll t es).calls.reachable) :
    m ∈ s.calls.reachable ∨ m ∈ (s.applyAll t es).queued := by
  refine (applyAll_induction (p := fun s' => m ∈ s'.calls.reachable →
    m ∈ s.calls.reachable ∨ m ∈ s'.queued) ?_ hs hes Or.inl).2 h
  intro s' e he hs' hp hm
  by_cases hold : m ∈ s'.calls.reachable
  · rcases hp hold with h | h
    · exact Or.inl h
    · exact Or.inr ((mem_queued_apply hs').mpr (Or.inl h))
  · exact Or.inr ((mem_queued_apply hs').mpr (Or.inr ⟨hm, hold⟩))

end Lists

/-! ## Balance -/

/-- What is at the source of an edge and passes its filter is at the target or on its way there. -/
def Carried (t : ClassTable) (s : Solver) : Prop :=
  ∀ kind a b filter o, s.Flows kind a b filter → s.Holds a o →
    s.passes t filter o = true → s.Due b o

theorem Carried.apply (h : s.Carried t) (hs : s.Proper t) (e : Effect) :
    (s.apply t e).Carried t := by
  intro kind a b filter o hflows hholds hpass
  rw [holds_apply hs] at hholds
  rw [passes_congr (typeOf?_apply hs (hs.lt_of_holds hholds) e)] at hpass
  rw [due_apply hs]
  by_cases hold : s.Flows kind a b filter
  · exact Or.inl (h kind a b filter o hold hholds hpass)
  · rcases (flows_apply hs).mp hflows with hflows | ⟨hf, rfl⟩
    · exact absurd hflows hold
    · exact Or.inr ⟨hf, rfl, hold, hholds, hpass⟩

/-- Between two steps nothing is lost. -/
structure Balanced (t : ClassTable) (s : Solver) : Prop where
  carried : s.Carried t
  /-- Waiting statements have had their effects for the objects at their base. -/
  met : ∀ i ∈ s.waiting, ∀ b, i.waitsAt? = some b → ∀ o, s.Holds (.var b) o →
    ∀ e ∈ i.effectsOn t o (s.typeOf? o), s.Done e
  /-- Statements of reachable methods have had their effects, unless the method is still to be
  entered. -/
  entered : ∀ m ∈ s.calls.reachable, m ∉ s.queued → ∀ M, t.method? m = some M →
    ∀ i ∈ M.instrs, ∀ e ∈ i.effects t, s.Done e

/-- Some effects are all that the balance lacks. -/
structure Owing (t : ClassTable) (es : List Effect) (s : Solver) : Prop where
  carried : s.Carried t
  met : ∀ i, i ∈ s.waiting ∨ .wait i ∈ es → ∀ b, i.waitsAt? = some b → ∀ o, s.Holds (.var b) o →
    ∀ e ∈ i.effectsOn t o (s.typeOf? o), s.Done e ∨ e ∈ es
  entered : ∀ m ∈ s.calls.reachable, m ∉ s.queued → ∀ M, t.method? m = some M →
    ∀ i ∈ M.instrs, ∀ e ∈ i.effects t, s.Done e ∨ e ∈ es

theorem Balanced.owing (hb : s.Balanced t) : s.Owing t [] where
  carried := hb.carried
  met i hi b hwaits o ho e he :=
    Or.inl (hb.met i (hi.resolve_right List.not_mem_nil) b hwaits o ho e he)
  entered m hm hq M hM i hi e he := Or.inl (hb.entered m hm hq M hM i hi e he)

/-- Effects restore the balance if they are what it lacks. -/
theorem Owing.balanced {es : List Effect} (h : s.Owing t es) (hs : s.Proper t)
    (hes : ∀ e ∈ es, e.Below s.heap.size) (hf : (s.applyAll t es).fault = none) :
    (s.applyAll t es).Balanced t := by
  have hdone : ∀ e, s.Done e ∨ e ∈ es → (s.applyAll t es).Done e := by
    rintro e (he | he)
    · exact (extends_applyAll hs hes).done he
    · exact done_of_mem hs hes hf e he
  refine ⟨?_, ?_, ?_⟩
  · exact (applyAll_induction (p := Carried t) (fun _ e _ hs h => h.apply hs e) hs hes h.carried).2
  · intro i hi b hb o ho e he
    rw [holds_applyAll hs hes] at ho
    rw [typeOf?_applyAll hs hes (hs.lt_of_holds ho)] at he
    exact hdone e (h.met i (mem_waiting_applyAll hs hes hi) b hb o ho e he)
  · intro m hm hq M hM i hi e he
    rcases mem_reachable_applyAll hs hes hm with hm | hm
    · exact hdone e (h.entered m hm (fun hm => hq (mem_queued_applyAll hs hes hm)) M hM i hi e he)
    · exact absurd hm hq

/-! ## Steps -/

section Steps

variable {queue : Queue Work}

/-- Objects that are taken from the queue arrive, so nothing that was due is lost. -/
theorem extends_arrive (hs : s.Proper t) {p : Nat} {os : ObjSet}
    (hpop : s.queue.pop? = some (.delta p os, queue)) :
    s.Extends ((s.taken queue).arrive t p (os.diff (s.flow.pts p))) := by
  obtain ⟨hlt, hos⟩ := hs.delta (Queue.toList_of_pop? hpop ▸ List.mem_cons_self)
  obtain ⟨q₀, hq₀⟩ := FlowGraph.exists_key? hlt
  have hs' := hs.taken hpop
  obtain ⟨memo, facts, -, heq⟩ := arrive_eq hs' p (os.diff (s.flow.pts p))
  refine ⟨?_, ?_, ?_, ?_, ?_, ?_, ?_, ?_⟩
  · intro q o h
    exact (holds_arrive hs' hq₀).mpr (Or.inl h)
  · rintro q o (h | h)
    · exact Or.inl ((holds_arrive hs' hq₀).mpr (Or.inl h))
    rcases (pending_iff_taken hpop).mp h with ⟨n, os', hw, hn, ho⟩ | h
    · obtain ⟨rfl, rfl⟩ := Work.delta.inj hw
      left
      rw [holds_arrive hs' hq₀]
      by_cases hold : o ∈ s.flow.pts p
      · exact Or.inl ⟨p, hn, hold⟩
      · exact Or.inr ⟨Option.some.inj (hn.symm.trans hq₀), ObjSet.mem_diff.mpr ⟨ho, hold⟩⟩
    · exact Or.inr ((pending_arrive hs' hq₀).mpr (Or.inl h))
  · intro kind a b filter h
    exact (flows_arrive hs').mpr h
  all_goals
    intros
    rw [heq]
    assumption

/-- Nothing is lost if the objects that are taken from the queue have arrived before. -/
theorem extends_taken {w : Work} (hpop : s.queue.pop? = some (w, queue))
    (hw : ∀ n os, w = .delta n os → ∀ o ∈ os, o ∈ s.flow.pts n) : s.Extends (s.taken queue) where
  holds h := h
  due := by
    rintro q o (h | h)
    · exact Or.inl h
    rcases (pending_iff_taken hpop).mp h with ⟨n, os, rfl, hn, ho⟩ | h
    · exact Or.inl ⟨n, hn, hw n os rfl o ho⟩
    · exact Or.inr h
  flows h := h
  heap h := h
  waiting _ h := h
  reachable _ h := h
  edges _ h := h
  diagnostics _ h := h

theorem Balanced.taken (hb : s.Balanced t) {p : Nat} {os : ObjSet}
    (hpop : s.queue.pop? = some (.delta p os, queue)) (hos : ∀ o ∈ os, o ∈ s.flow.pts p) :
    (s.taken queue).Balanced t := by
  have hext : s.Extends (s.taken queue) := extends_taken hpop fun n os' hw => by
    obtain ⟨rfl, rfl⟩ := Work.delta.inj hw
    exact hos
  refine ⟨?_, ?_, ?_⟩
  · intro kind a b filter o hflows hholds hpass
    exact hext.due (hb.carried kind a b filter o hflows hholds hpass)
  · intro i hi b hwaits o ho e he
    exact hext.done (hb.met i hi b hwaits o ho e he)
  · intro m hm hq M hM i hi e he
    refine hext.done (hb.entered m hm ?_ M hM i hi e he)
    rw [mem_queued_iff_taken hpop]
    rintro (h | h)
    · exact nomatch h
    · exact hq h

/-- Objects that arrive are passed on, and what they wake is owed. -/
theorem Balanced.owing_arrive (hb : s.Balanced t) (hs : s.Proper t) {p : Nat} {os : ObjSet}
    (hpop : s.queue.pop? = some (.delta p os, queue)) (hlt : p < s.flow.size) :
    ((s.taken queue).arrive t p (os.diff (s.flow.pts p))).Owing t
      (s.wakeEffects t p (os.diff (s.flow.pts p))) := by
  obtain ⟨q₀, hq₀⟩ := FlowGraph.exists_key? hlt
  have hs' := hs.taken hpop
  have hext := extends_arrive hs hpop
  refine ⟨?_, ?_, ?_⟩
  · intro kind a b filter o hflows hholds hpass
    rw [flows_arrive hs'] at hflows
    rw [passes_congr (typeOf?_arrive hs' ..)] at hpass
    rcases (holds_arrive hs' hq₀).mp hholds with hholds | ⟨rfl, hnew⟩
    · exact hext.due (hb.carried kind a b filter o hflows hholds hpass)
    · exact Or.inr ((pending_arrive hs' hq₀).mpr (Or.inr ⟨kind, filter, hflows, hnew, hpass⟩))
  · intro i hi b hwaits o hholds e he
    rw [waiting_arrive hs'] at hi
    rw [typeOf?_arrive hs'] at he
    have hi : i ∈ s.waiting := hi.resolve_right fun h => wakeEffects_ne_wait h i rfl
    rcases (holds_arrive hs' hq₀).mp hholds with hholds | ⟨rfl, hnew⟩
    · exact Or.inl (hext.done (hb.met i hi b hwaits o hholds e he))
    · right
      unfold wakeEffects
      rw [hq₀]
      exact List.mem_flatMap.mpr ⟨o, hnew, List.mem_flatMap.mpr
        ⟨i, mem_waitingAt.mpr ⟨hi, Instr.base?_of_waitsAt? hwaits⟩, he⟩⟩
  · intro m hm hq M hM i hi e he
    rw [calls_arrive hs'] at hm
    rw [queued_arrive hs'] at hq
    refine Or.inl (hext.done (hb.entered m hm ?_ M hM i hi e he))
    rw [mem_queued_iff_taken hpop]
    exact not_or.mpr ⟨nofun, hq⟩

/-- The statements of a method that is taken from the queue are owed. -/
theorem Balanced.owing_enter (hb : s.Balanced t) (hs : s.Proper t) {m : MethodId}
    (hpop : s.queue.pop? = some (.method m, queue)) :
    ((s.taken queue).tell (.reachable m)).Owing t (s.bodyEffects t m) := by
  have hext : s.Extends ((s.taken queue).tell (.reachable m)) :=
    { extends_taken hpop fun n os h => nomatch h with }
  refine ⟨?_, ?_, ?_⟩
  · intro kind a b filter o hflows hholds hpass
    exact hext.due (hb.carried kind a b filter o hflows hholds hpass)
  · rintro i (hi | hi) b hwaits o hholds e he
    · exact Or.inl (hext.done (hb.met i hi b hwaits o hholds e he))
    · -- the statement is put to wait now, together with its effects for the objects at its base
      obtain ⟨M, hM, hi, -⟩ := wait_mem_bodyEffects hi
      refine Or.inr (mem_bodyEffects.mpr ⟨M, hM, i, hi,
        mem_effectsOf.mpr (Or.inr ⟨b, hwaits, o, ?_, he⟩)⟩)
      exact (mem_objectsAt hs).mpr hholds
  · intro m' hm' hq M hM i hi e he
    by_cases hmm : m' = m
    · subst hmm
      exact Or.inr (mem_bodyEffects.mpr ⟨M, hM, i, hi, mem_effectsOf.mpr (Or.inl he)⟩)
    · refine Or.inl (hext.done (hb.entered m' hm' ?_ M hM i hi e he))
      rw [mem_queued_iff_taken hpop]
      exact not_or.mpr ⟨fun h => hmm (Work.method.inj h).symm, hq⟩

namespace Begins

variable {first : Solver} {es : List Effect}

theorem extends_first (h : s.Begins t first es) (hs : s.Proper t) : s.Extends first := by
  cases h with
  | idle hpop => exact Extends.refl s
  | known hpop hold =>
    refine extends_taken hpop fun n os hw => ?_
    obtain ⟨rfl, rfl⟩ := Work.delta.inj hw
    exact hold
  | arrive hpop hlt hos hnew => exact extends_arrive hs hpop
  | enter hpop => exact { extends_taken hpop fun n os h => nomatch h with }

theorem owing (h : s.Begins t first es) (hb : s.Balanced t) (hs : s.Proper t) :
    first.Owing t es := by
  cases h with
  | idle hpop => exact hb.owing
  | known hpop hold => exact (hb.taken hpop hold).owing
  | arrive hpop hlt hos hnew => exact hb.owing_arrive hs hpop hlt
  | enter hpop => exact hb.owing_enter hs hpop

end Begins

/-- A step loses nothing. -/
theorem extends_step (hs : s.Proper t) : s.Extends (s.step t) := by
  obtain ⟨first, es, hfirst, heq⟩ := exists_begins hs
  rw [heq]
  exact (hfirst.extends_first hs).trans (extends_applyAll (hfirst.proper hs) (hfirst.below hs))

theorem Balanced.step (hb : s.Balanced t) (hs : s.Proper t) (hf : (s.step t).fault = none) :
    (s.step t).Balanced t := by
  obtain ⟨first, es, hfirst, heq⟩ := exists_begins hs
  rw [heq] at hf ⊢
  exact (hfirst.owing hb hs).balanced (hfirst.proper hs) (hfirst.below hs) hf

end Steps

end PointsTo.Solver
