import PointsTo.Proofs.ClassTable
import PointsTo.Proofs.Constraints
import PointsTo.Proofs.Solver.Run

/-!
# Everything is justified

Let `σ` be any solution that obeys the constraints of a program. Whatever a run of the solver finds
out is said by `σ` as well: objects that are at a pointer or on their way there, reachable methods,
call edges; and every flow edge is one that the statements of methods reachable in `σ` demand
(`Within`).

1. `Licensed` says which effects `σ` allows. The effects of statements of reachable methods are
   licensed (`effects_licensed`, `effectsOn_licensed`).
2. Licensed effects, the arrival of objects and hence steps keep a state within `σ` (`Within.apply`,
   `Within.arrive`, `Within.step`).
-/

namespace PointsTo.Solver

/-! ## Places by allocation -/

theorem slot?_mono {heap heap' : Array Site}
    (h : ∀ {o : Nat} {site : Site}, heap[o]? = some site → heap'[o]? = some site)
    {q : Pointer} {a : Slot}
    (hq : q.slot? heap = some a) : q.slot? heap' = some a := by
  cases q with
  | var v => exact hq
  | field o f =>
    obtain ⟨site, ho, rfl⟩ := Option.map_eq_some_iff.mp hq
    exact Option.map_eq_some_iff.mpr ⟨site, h ho, rfl⟩
  | static f => exact hq
  | elem o =>
    obtain ⟨site, ho, rfl⟩ := Option.map_eq_some_iff.mp hq
    exact Option.map_eq_some_iff.mpr ⟨site, h ho, rfl⟩

/-- The solution has the object at the place of the pointer. -/
def Permits (σ : Solution) (heap : Array Site) (q : Pointer) (o : Nat) : Prop :=
  ∃ a site, q.slot? heap = some a ∧ heap[o]? = some site ∧ site ∈ σ.pts a

/-- The solution demands an edge between the places of the pointers. -/
def Provides (t : ClassTable) (σ : Solution) (heap : Array Site) (kind : EdgeKind) (a b : Pointer)
    (filter : Option Ty) : Prop :=
  ∃ a' b', a.slot? heap = some a' ∧ b.slot? heap = some b' ∧ σ.Demands t kind a' b' filter

/-- The solution allows the effect. -/
def Licensed (t : ClassTable) (σ : Solution) (heap : Array Site) : Effect → Prop
  | .edge kind a b filter => Provides t σ heap kind a b filter
  | .arrive q o => Permits σ heap q o
  | .alloc site => site ∈ σ.pts (.var site.lhs)
  | .wait i => σ.Performs t i ∧ i.waitsAt?.isSome
  | .call c m => m ∈ σ.reachable ∧ ⟨c.stmt, m, c.call.kind.dispatched⟩ ∈ σ.calls
  | _ => True

section Mono

variable {t : ClassTable} {σ : Solution} {heap heap' : Array Site}
  (h : ∀ {o : Nat} {site : Site}, heap[o]? = some site → heap'[o]? = some site)

include h

theorem Permits.mono {q : Pointer} {o : Nat} (hp : Permits σ heap q o) : Permits σ heap' q o := by
  obtain ⟨a, site, ha, ho, hmem⟩ := hp
  exact ⟨a, site, slot?_mono h ha, h ho, hmem⟩

theorem Provides.mono {kind : EdgeKind} {a b : Pointer} {filter : Option Ty}
    (hp : Provides t σ heap kind a b filter) : Provides t σ heap' kind a b filter := by
  obtain ⟨a', b', ha, hb, hd⟩ := hp
  exact ⟨a', b', slot?_mono h ha, slot?_mono h hb, hd⟩

theorem Licensed.mono {e : Effect} (he : Licensed t σ heap e) : Licensed t σ heap' e := by
  cases e with
  | edge kind a b filter => exact Provides.mono h he
  | arrive q o => exact Permits.mono h he
  | _ => exact he

end Mono

variable {t : ClassTable} {s : Solver} {σ : Solution} {entries : List MethodId}
  {q : Pointer} {o : Nat}

/-- Objects flow along demanded edges within the solution. -/
theorem Permits.flow (hσ : σ.Closed t entries) {kind : EdgeKind} {a b : Pointer}
    {filter : Option Ty}
    (hedge : Provides t σ s.heap kind a b filter) (ho : Permits σ s.heap a o)
    (hpass : s.passes t filter o = true) : Permits σ s.heap b o := by
  obtain ⟨a', b', ha, hb, hd⟩ := hedge
  obtain ⟨a'', site, ha', hsite, hmem⟩ := ho
  obtain rfl : a' = a'' := Option.some.inj (ha.symm.trans ha')
  refine ⟨b', site, hb, hsite, hσ.flow hd hmem ?_⟩
  rintro type rfl
  rwa [passes_some (typeOf?_of_getElem? hsite)] at hpass

/-- Whatever the state says, the solution says too. -/
structure Within (t : ClassTable) (σ : Solution) (s : Solver) : Prop where
  due : ∀ {q o}, s.Due q o → Permits σ s.heap q o
  flows : ∀ {kind a b filter}, s.Flows kind a b filter → Provides t σ s.heap kind a b filter
  reachable : ∀ m ∈ s.calls.reachable, m ∈ σ.reachable
  edges : ∀ x ∈ s.calls.edges, x ∈ σ.calls
  waiting : ∀ i ∈ s.waiting, σ.Performs t i ∧ i.waitsAt?.isSome

theorem Initial.within {memo : Memo} (hs : s.Initial memo)
    (hentries : ∀ m ∈ s.calls.reachable, m ∈ σ.reachable) : Within t σ s where
  due := by
    rintro q o (h | ⟨n, os, h, -⟩)
    · exact absurd h (hs.not_holds q o)
    · exact absurd h hs.not_mem_delta
  flows h := absurd h (hs.not_flows _ _ _ _)
  reachable := hentries
  edges x hx := by simp [hs.edges] at hx
  waiting i hi := by simp [hs.waiting] at hi

/-! ## Effects -/

theorem Within.apply (hw : Within t σ s) (hσ : σ.Closed t entries) (hs : s.Proper t) {e : Effect}
    (he : Licensed t σ s.heap e) : Within t σ (s.apply t e) := by
  have hext := extends_apply hs e
  refine ⟨?_, ?_, ?_, ?_, ?_⟩
  · intro q o hdue
    rcases (due_apply hs).mp hdue with hdue | ⟨hf, hsends⟩
    · exact (hw.due hdue).mono hext.heap
    cases e with
    | edge kind a b filter =>
      obtain ⟨rfl, -, hholds, hpass⟩ := hsends
      exact (Permits.flow hσ he (hw.due (Or.inl hholds)) hpass).mono hext.heap
    | arrive q' o' =>
      obtain ⟨rfl, rfl⟩ := hsends
      exact Permits.mono hext.heap he
    | alloc site =>
      obtain ⟨rfl, rfl⟩ := hsends
      exact ⟨_, site, rfl, (getElem?_heap_apply hs).mpr (Or.inr ⟨hf, rfl, rfl⟩), he⟩
    | _ => exact hsends.elim
  · intro kind a b filter hflows
    rcases (flows_apply hs).mp hflows with hflows | ⟨-, rfl⟩
    · exact (hw.flows hflows).mono hext.heap
    · exact Provides.mono hext.heap he
  · intro m hm
    rcases (mem_reachable_apply hs).mp hm with hm | ⟨-, c, rfl⟩
    · exact hw.reachable m hm
    · exact he.1
  · intro x hx
    rcases (mem_edges_apply hs).mp hx with hx | ⟨-, c, m, rfl, -, rfl⟩
    · exact hw.edges x hx
    · exact he.2
  · intro i hi
    rcases (mem_waiting_apply hs).mp hi with hi | ⟨-, rfl⟩
    · exact hw.waiting i hi
    · exact he

theorem Within.applyAll (hw : Within t σ s) (hσ : σ.Closed t entries) (hs : s.Proper t)
    {es : List Effect} (hbelow : ∀ e ∈ es, e.Below s.heap.size)
    (hes : ∀ e ∈ es, Licensed t σ s.heap e) :
    Within t σ (s.applyAll t es) := by
  refine (applyAll_induction (p := fun s' => Within t σ s' ∧ s.Extends s') ?_ hs hbelow
    ⟨hw, Extends.refl s⟩).2.1
  rintro s' e he hs' ⟨hw', hext⟩
  exact ⟨hw'.apply hσ hs' ((hes e he).mono hext.heap), hext.trans (extends_apply hs' e)⟩

/-! ## Statements -/

section Statements

variable (hσ : σ.Closed t entries) (hcollected : ∀ id m, t.method? id = some m → m.Collected)

include hσ hcollected

theorem call_licensed {c : Invocation} {recv : Option Nat} {site? : Option Site} {heap : Array Site}
    (hi : σ.Performs t (.call c)) (hmade : σ.MadeOn c site?)
    (hrecv : ∀ o, recv = some o → ∃ site, heap[o]? = some site ∧ site? = some site) {e : Effect}
    (he : c.HasEffect t recv (site?.map Site.type) e) : Licensed t σ heap e := by
  have hlinked : ∀ callee, Solution.Runs t c site? callee → σ.Linked c site? callee := fun callee =>
    hσ.obeys hi site? callee hmade
  cases he with
  | call h hm =>
    have hlink := hlinked _ ⟨_, h, hm⟩
    exact ⟨hlink.reachable, hlink.edge⟩
  | receiver h hm ho hthis =>
    obtain ⟨site, hsite, hsite?⟩ := hrecv _ ho
    exact ⟨_, site, rfl, hsite, (hlinked _ ⟨_, h, hm⟩).receiver site _ hsite? hthis⟩
  | argument h hm hp => exact ⟨_, _, rfl, rfl, .argument hi hmade ⟨_, h, hm⟩ hp⟩
  | result h hm hx hv =>
    obtain ⟨st, hst, hret⟩ := (hcollected _ _ hm _).mp hv
    exact ⟨_, _, rfl, rfl, .result hi hmade ⟨_, h, hm⟩ hx hst hret⟩
  | _ => trivial

/-- The effects of a statement of a reachable method are licensed. -/
theorem effects_licensed {i : Instr} (hi : σ.Performs t i) {heap : Array Site} :
    ∀ e ∈ i.effects t, Licensed t σ heap e := by
  intro e he
  cases Instr.hasEffect_of_mem he with
  | node h => trivial
  | wait h => exact ⟨hi, by rw [h]; rfl⟩
  | alloc => exact hσ.obeys hi
  | assign h => exact ⟨_, _, rfl, rfl, .assign hi h⟩
  | cast h => exact ⟨_, _, rfl, rfl, .cast hi h⟩
  | staticLoad h => exact ⟨_, _, rfl, rfl, .staticLoad hi h⟩
  | staticStore h => exact ⟨_, _, rfl, rfl, .staticStore hi h⟩
  | @call c _ h he =>
    have hmade : σ.MadeOn c none := by
      unfold Solution.MadeOn
      rw [if_pos h]
    have hrecv : ∀ o, (none : Option Nat) = some o →
        ∃ site, heap[o]? = some site ∧ (none : Option Site) = some site := nofun
    exact call_licensed hσ hcollected hi hmade hrecv he
  | receiverless h hrecv => trivial

/-- So are its effects for an object that the solution has at its base. -/
theorem effectsOn_licensed {i : Instr} (hi : σ.Performs t i) {b : Var} (hb : i.waitsAt? = some b)
    {heap : Array Site} {site : Site} (ho : heap[o]? = some site) (hmem : site ∈ σ.pts (.var b)) :
    ∀ e ∈ i.effectsOn t o (some site.type), Licensed t σ heap e := by
  have hfield : ∀ f, Pointer.slot? heap (.field o f) = some (.field site f) := fun f =>
    Option.map_eq_some_iff.mpr ⟨site, ho, rfl⟩
  have helem : Pointer.slot? heap (.elem o) = some (.elem site) :=
    Option.map_eq_some_iff.mpr ⟨site, ho, rfl⟩
  intro e he
  cases Instr.hasEffectOn_of_mem he with
  | load =>
    obtain ⟨hf, hb⟩ := Option.ite_none_right_eq_some.mp hb
    exact ⟨_, _, hfield _, rfl, .load hi hf (Option.some.inj hb ▸ hmem)⟩
  | store =>
    obtain ⟨hf, hb⟩ := Option.ite_none_right_eq_some.mp hb
    exact ⟨_, _, rfl, hfield _, .store hi hf (Option.some.inj hb ▸ hmem)⟩
  | arrayLoad =>
    obtain ⟨hx, hb⟩ := Option.ite_none_right_eq_some.mp hb
    exact ⟨_, _, helem, rfl, .arrayLoad hi hx (Option.some.inj hb ▸ hmem)⟩
  | arrayStore =>
    obtain ⟨hy, hb⟩ := Option.ite_none_right_eq_some.mp hb
    exact ⟨_, _, rfl, helem, .arrayStore hi hy (Option.some.inj hb ▸ hmem)⟩
  | @call c _ he =>
    obtain ⟨hkind, hv⟩ := Option.ite_none_left_eq_some.mp hb
    have hmade : σ.MadeOn c (some site) := by
      unfold Solution.MadeOn
      rw [if_neg hkind]
      exact ⟨b, site, hv, hmem, rfl⟩
    refine call_licensed hσ hcollected hi hmade ?_ he
    intro o' ho'
    obtain rfl := Option.some.inj ho'
    exact ⟨site, ho, rfl⟩

end Statements

/-! ## Steps -/

section Steps

variable {queue : Queue Work} {w : Work}

theorem Within.taken (hw : Within t σ s) (hpop : s.queue.pop? = some (w, queue)) :
    Within t σ (s.taken queue) :=
  { hw with
    due := by
      rintro q o (h | h)
      · exact hw.due (Or.inl h)
      · exact hw.due (Or.inr ((pending_iff_taken hpop).mpr (Or.inr h))) }

theorem Within.arrive (hw : Within t σ s) (hσ : σ.Closed t entries) (hs : s.Proper t) {p : Nat}
    {fresh : ObjSet} (hp : s.flow.key? p = some q) (hfresh : ∀ o ∈ fresh, Permits σ s.heap q o) :
    Within t σ (s.arrive t p fresh) := by
  have hheap := heap_arrive hs p fresh
  refine ⟨?_, ?_, ?_, ?_, ?_⟩
  · rw [hheap]
    rintro q' o (h | h)
    · rcases (holds_arrive hs hp).mp h with h | ⟨rfl, ho⟩
      · exact hw.due (Or.inl h)
      · exact hfresh o ho
    · rcases (pending_arrive hs hp).mp h with h | ⟨kind, filter, hflows, ho, hpass⟩
      · exact hw.due (Or.inr h)
      · exact (hfresh o ho).flow hσ (hw.flows hflows) hpass
  · rw [hheap]
    intro kind a b filter h
    exact hw.flows ((flows_arrive hs).mp h)
  · rw [calls_arrive hs]
    exact hw.reachable
  · rw [calls_arrive hs]
    exact hw.edges
  · rw [waiting_arrive hs]
    exact hw.waiting

variable (hσ : σ.Closed t entries) (hcollected : ∀ id m, t.method? id = some m → m.Collected)

include hσ hcollected

theorem wakeEffects_licensed (hw : Within t σ s) {p : Nat} {fresh : ObjSet}
    (hp : s.flow.key? p = some q)
    (hfresh : ∀ o ∈ fresh, Permits σ s.heap q o) :
    ∀ e ∈ s.wakeEffects t p fresh, Licensed t σ s.heap e := by
  intro e he
  unfold wakeEffects at he
  rw [hp] at he
  cases q with
  | var v =>
    obtain ⟨o, ho, hwake⟩ := List.mem_flatMap.mp he
    obtain ⟨i, hi, hon⟩ := List.mem_flatMap.mp hwake
    obtain ⟨hwait, hbase⟩ := mem_waitingAt.mp hi
    obtain ⟨hperforms, hsome⟩ := hw.waiting i hwait
    obtain ⟨b, hb⟩ := Option.isSome_iff_exists.mp hsome
    obtain rfl : b = v := Option.some.inj ((Instr.base?_of_waitsAt? hb).symm.trans hbase)
    obtain ⟨a, site, ha, hsite, hmem⟩ := hfresh o ho
    obtain rfl := Option.some.inj ha
    rw [typeOf?_of_getElem? hsite] at hon
    exact effectsOn_licensed hσ hcollected hperforms hb hsite hmem e hon
  | _ => exact absurd he List.not_mem_nil

theorem bodyEffects_licensed (hw : Within t σ s) (hs : s.Proper t) {m : MethodId}
    (hm : m ∈ σ.reachable) :
    ∀ e ∈ s.bodyEffects t m, Licensed t σ s.heap e := by
  intro e he
  obtain ⟨M, hM, i, hi, he⟩ := mem_bodyEffects.mp he
  have hperforms : σ.Performs t i := ⟨m, hm, M, hM, hi⟩
  rcases mem_effectsOf.mp he with he | ⟨b, hb, o, ho, he⟩
  · exact effects_licensed hσ hcollected hperforms e he
  · obtain ⟨a, site, ha, hsite, hmem⟩ := hw.due (Or.inl ((mem_objectsAt hs).mp ho))
    obtain rfl := Option.some.inj ha
    rw [typeOf?_of_getElem? hsite] at he
    exact effectsOn_licensed hσ hcollected hperforms hb hsite hmem e he

theorem Within.step (hw : Within t σ s) (hs : s.Proper t) : Within t σ (s.step t) := by
  obtain ⟨first, es, hfirst, heq⟩ := exists_begins hs
  have hbegin : Within t σ first ∧ ∀ e ∈ es, Licensed t σ s.heap e := by
    cases hfirst with
    | idle hpop => exact ⟨hw, fun _ he => absurd he List.not_mem_nil⟩
    | known hpop hold => exact ⟨hw.taken hpop, fun _ he => absurd he List.not_mem_nil⟩
    | @arrive p os queue hpop hlt hos hnew =>
      obtain ⟨q, hq⟩ := FlowGraph.exists_key? hlt
      have hfresh : ∀ o ∈ os.diff (s.flow.pts p), Permits σ s.heap q o := fun o ho =>
        hw.due (Or.inr ((pending_iff_taken hpop).mpr
          (Or.inl ⟨p, os, rfl, hq, (ObjSet.mem_diff.mp ho).1⟩)))
      exact ⟨(hw.taken hpop).arrive hσ (hs.taken hpop) hq hfresh,
        wakeEffects_licensed hσ hcollected hw hq hfresh⟩
    | @enter m queue hpop =>
      have hm : m ∈ σ.reachable :=
        hw.reachable m (hs.queued_reachable m ((mem_queued_iff_taken hpop).mpr (Or.inl rfl)))
      exact ⟨{ hw.taken hpop with }, bodyEffects_licensed hσ hcollected hw hs hm⟩
  rw [heq]
  exact hbegin.1.applyAll hσ (hfirst.proper hs) (hfirst.below hs) (hfirst.heap hs ▸ hbegin.2)

end Steps

end PointsTo.Solver
