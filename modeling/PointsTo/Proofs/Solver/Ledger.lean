import PointsTo.Proofs.Constraints
import PointsTo.Proofs.Solver.Agenda

/-!
# The calls that have looked for their targets

Every step has a list of calls that look for their targets in it (`dispatches`). As long as there is
no fault, a log of all of them accounts for the diagnostics and the call edges of the state: the
failures in the log are the diagnostics, in order, and the others are the edges (`Books`). On the
other hand the log is determined by what the state holds: every static call of a method that was
entered is in it, and every other one once for each object at its receiver (`Served`). For this it
matters that no statement stands twice in the bodies of methods.
-/

namespace PointsTo

/-- The call that the statement makes, if it is one. -/
def Instr.invocation? : Instr → Option Invocation
  | call c => some c
  | _ => none

theorem Instr.invocation?_eq_some {i : Instr} {c : Invocation} :
    i.invocation? = some c ↔ i = .call c := by
  cases i <;> simp [invocation?]

/-- The diagnostic of a call for which there is no target. -/
def Dispatch.failure? (t : ClassTable) (m₀ : Memo) (heap : Array Site) (d : Dispatch) :
    Option Diagnostic :=
  match d.target t m₀ heap with
  | .ok (.error e) => some ⟨d.site.stmt, d.object, e⟩
  | _ => none

theorem Dispatch.failure?_eq_some {t : ClassTable} {m₀ : Memo} {heap : Array Site} {d : Dispatch}
    {x : Diagnostic} :
    d.failure? t m₀ heap = some x ↔
      ∃ e, d.target t m₀ heap = .ok (.error e) ∧ x = ⟨d.site.stmt, d.object, e⟩ := by
  unfold failure?
  split
  · next e he => simp [he, eq_comm]
  · next hne =>
    refine iff_of_false nofun ?_
    rintro ⟨e, he, -⟩
    exact hne e he

/-- The target depends on the object of the call only. -/
theorem Dispatch.target_congr {t : ClassTable} {m₀ : Memo} {heap heap' : Array Site} {d : Dispatch}
    (h : ∀ o ∈ d.object, heap'[o]? = heap[o]?) : d.target t m₀ heap' = d.target t m₀ heap := by
  unfold target
  cases ho : d.object with
  | none => rfl
  | some o => rw [Option.bind_some, Option.bind_some, h o ho]

theorem Turn.object_of_dispatch? {u : Turn} {d : Dispatch} (h : u.dispatch? = some d) :
    d.object = u.object := by
  obtain ⟨i, object⟩ := u
  cases i with
  | call c =>
    cases object with
    | some o =>
      obtain rfl := Option.some.inj h
      rfl
    | none =>
      unfold dispatch? at h
      dsimp only at h
      split_ifs at h
      obtain rfl := Option.some.inj h
      rfl
  | _ => cases object <;> exact nomatch h

namespace Solver

variable {t : ClassTable} {m₀ : Memo} {s s' first : Solver} {us : List Turn} {u : Turn}
  {log : List Dispatch}
  {m : MethodId}

/-- The calls that look for their targets in a step. -/
def dispatches (t : ClassTable) (s : Solver) : List Dispatch := (s.turns t).filterMap Turn.dispatch?

/-! ## What turns leave behind -/

/-- The log accounts for the diagnostics and call edges of the state. -/
structure Books (t : ClassTable) (m₀ : Memo) (log : List Dispatch) (s : Solver) : Prop where
  diagnostics : s.diagnostics.toList = log.filterMap (Dispatch.failure? t m₀ s.heap)
  edge : ∀ e ∈ s.calls.edges, ∃ d ∈ log, d.target t m₀ s.heap = .ok (.ok e.callee) ∧
    e.site = d.site.stmt ∧
    e.kind = d.site.call.kind.dispatched
  answered : ∀ d ∈ log, (∃ e, d.target t m₀ s.heap = .ok (.error e)) ∨
    ∃ m, d.target t m₀ s.heap = .ok (.ok m) ∧ ∃ e ∈ s.calls.edges, e.site = d.site.stmt ∧
      e.callee = m
  object_lt : ∀ d ∈ log, ∀ o ∈ d.object, o < s.heap.size

namespace Books

theorem mono (h : Books t m₀ log s) (hkeeps : Keeps t m₀ s s')
    (hdiagnostics : s'.diagnostics = s.diagnostics)
    (hcalls : s'.calls = s.calls) : Books t m₀ log s' := by
  have htarget : ∀ d ∈ log, d.target t m₀ s'.heap = d.target t m₀ s.heap := fun d hd =>
    Dispatch.target_congr fun o ho => hkeeps.heap o (h.object_lt d hd o ho)
  refine ⟨?_, fun e he => ?_, fun d hd => ?_,
    fun d hd o ho => hkeeps.lt_size (h.object_lt d hd o ho)⟩
  · rw [hdiagnostics, h.diagnostics]
    refine List.filterMap_congr fun d hd => ?_
    unfold Dispatch.failure?
    rw [htarget d hd]
  · rw [hcalls] at he
    obtain ⟨d, hd, hok, hedge⟩ := h.edge e he
    exact ⟨d, hd, (htarget d hd).trans hok, hedge⟩
  · rw [htarget d hd, hcalls]
    exact h.answered d hd

variable {d : Dispatch} (h : Books t m₀ log s) (hd : ∀ o ∈ d.object, o < s.heap.size)

include h hd

theorem diagnose {e : ResolutionError} (htarget : d.target t m₀ s.heap = .ok (.error e)) :
    Books t m₀ (log ++ [d])
      { s with diagnostics := s.diagnostics.push ⟨d.site.stmt, d.object, e⟩ } where
  diagnostics := by
    have hfailure : d.failure? t m₀ s.heap = some ⟨d.site.stmt, d.object, e⟩ :=
      Dispatch.failure?_eq_some.mpr ⟨e, htarget, rfl⟩
    rw [Array.toList_push, h.diagnostics, List.filterMap_append, List.filterMap_cons_some hfailure]
    rfl
  edge e' he' := by
    obtain ⟨d', hd', hedge⟩ := h.edge e' he'
    exact ⟨d', List.mem_append_left _ hd', hedge⟩
  answered :=
    List.forall_mem_append.mpr ⟨h.answered, List.forall_mem_singleton.mpr (Or.inl ⟨e, htarget⟩)⟩
  object_lt := List.forall_mem_append.mpr ⟨h.object_lt, List.forall_mem_singleton.mpr hd⟩

theorem noteCall (hindexed : s.calls.Indexed) {callee : Method}
    (htarget : d.target t m₀ s.heap = .ok (.ok callee.id)) :
    Books t m₀ (log ++ [d]) (s.noteCall d.site callee) := by
  have hfailure : d.failure? t m₀ s.heap = none := by
    unfold Dispatch.failure?
    rw [htarget]
  have hold : ∀ e ∈ s.calls.edges, e ∈ (s.noteCall d.site callee).calls.edges := by
    intro e he
    by_cases hedge : (s.calls.edgeKind? d.site.stmt callee.id).isSome
    · rwa [noteCall_of_isSome hedge]
    · rw [noteCall_of_not_isSome hedge]
      exact List.mem_append_left _ he
  have hedge : ∀ e ∈ (s.noteCall d.site callee).calls.edges, ∃ d' ∈ log ++ [d],
      d'.target t m₀ s.heap = .ok (.ok e.callee) ∧ e.site = d'.site.stmt ∧
        e.kind = d'.site.call.kind.dispatched := by
    intro e he
    rcases mem_edges_of_noteCall he with he | rfl
    · obtain ⟨d', hd', hedge⟩ := h.edge e he
      exact ⟨d', List.mem_append_left _ hd', hedge⟩
    · exact ⟨d, List.mem_append_right _ (List.mem_singleton_self d), htarget, rfl, rfl⟩
  have hanswered : ∀ d' ∈ log ++ [d], (∃ e, d'.target t m₀ s.heap = .ok (.error e)) ∨
      ∃ m, d'.target t m₀ s.heap = .ok (.ok m) ∧
        ∃ e ∈ (s.noteCall d.site callee).calls.edges, e.site = d'.site.stmt ∧ e.callee = m := by
    have hnew := exists_edge_noteCall hindexed d.site callee
    refine List.forall_mem_append.mpr ⟨fun d' hd' => ?_,
      List.forall_mem_singleton.mpr (Or.inr ⟨_, htarget, hnew⟩)⟩
    refine (h.answered d' hd').imp_right ?_
    rintro ⟨m, hm, e, he, hsite⟩
    exact ⟨m, hm, e, hold e he, hsite⟩
  obtain ⟨calls, queue, events, heq⟩ := s.noteCall_frame d.site callee
  rw [heq] at hedge hanswered ⊢
  refine ⟨?_, hedge, hanswered, List.forall_mem_append.mpr
    ⟨h.object_lt, List.forall_mem_singleton.mpr hd⟩⟩
  rw [List.filterMap_append, List.filterMap_cons_none hfailure, List.filterMap_nil, List.append_nil]
  exact h.diagnostics

end Books

/-- A turn enters its call into the books. -/
theorem Books.goes (h : Books t m₀ log s) (hid : ∀ m M, t.method? m = some M → M.id = m)
    (hu : ∀ o ∈ u.object, o < s.heap.size) (hgoes : Goes t m₀ s u s') (hf : s'.fault = none) :
    Books t m₀ (log ++ u.dispatch?.toList) s' := by
  have hkeeps := hgoes.keeps
  cases hgoes with
  | stopped hf' hcause hheap hwaiting h' => exact nomatch hf.symm.trans hf'
  | spread hd hwaits h' =>
    rw [hd, Option.toList_none, List.append_nil]
    exact h.mono hkeeps h'.diagnostics h'.calls
  | wait hd hwaits h' =>
    rw [hd, Option.toList_none, List.append_nil]
    exact h.mono hkeeps h'.diagnostics h'.calls
  | @alloc site s₁ _ hu h₁ h' =>
    obtain ⟨heap, heq⟩ := s₁.object_frame site
    rw [heq] at h'
    rw [hu]
    show Books t m₀ (log ++ []) s'
    rw [List.append_nil]
    exact h.mono hkeeps (h'.diagnostics.trans h₁.diagnostics) (h'.calls.trans h₁.calls)
  | @unresolved d e s₁ _ hd htarget h₁ h' =>
    have hlt : ∀ o ∈ d.object, o < s₁.heap.size := fun o ho =>
      h₁.heap.symm ▸ hu o (Turn.object_of_dispatch? hd ▸ ho)
    have hbooks :=
      (h.mono h₁.keeps h₁.diagnostics h₁.calls).diagnose hlt (e := e) (h₁.heap.symm ▸ htarget)
    rw [hd]
    exact hbooks.mono h'.keeps h'.diagnostics h'.calls
  | @resolved d m callee s₁ _ hd htarget hm h₁ h' =>
    obtain rfl := hid m callee hm
    have hlt : ∀ o ∈ d.object, o < s₁.heap.size := fun o ho =>
      h₁.heap.symm ▸ hu o (Turn.object_of_dispatch? hd ▸ ho)
    have hbooks := (h.mono h₁.keeps h₁.diagnostics h₁.calls).noteCall hlt h₁.coherent.indexed
      (h₁.heap.symm ▸ htarget)
    rw [hd]
    exact hbooks.mono h'.keeps h'.diagnostics h'.calls

/-- Once there is a fault nothing happens. -/
theorem turn_of_fault (hf : s.fault.isSome) (u : Turn) : s.turn t u = s := by
  obtain ⟨i, object⟩ := u
  cases object with
  | some o => exact if_pos hf
  | none =>
    show s.prepare t i = s
    unfold prepare
    split
    · exact if_pos hf
    · exact if_pos hf

theorem fault_of_turns (h : (us.foldl (turn t) s).fault = none) : s.fault = none := by
  by_contra hf
  rw [List.foldl_fixed' (turn_of_fault (Option.isSome_iff_ne_none.mpr hf))] at h
  exact hf h

/-- What a list of turns leaves behind if there is no fault. -/
structure Serves (t : ClassTable) (m₀ : Memo) (s : Solver) (us : List Turn) (s' : Solver) :
    Prop where
  keeps : Keeps t m₀ s s'
  waiting : s'.waiting = s.waiting ++ (us.filter Turn.waits).map Turn.instr
  books : ∀ log, Books t m₀ log s → Books t m₀ (log ++ us.filterMap Turn.dispatch?) s'

theorem serves_turns (hid : ∀ m M, t.method? m = some M → M.id = m) :
    ∀ {us : List Turn} {s : Solver},
    s.Coherent t m₀ → (∀ u ∈ us, ∀ o ∈ u.object, o < s.heap.size) →
      (us.foldl (turn t) s).fault = none →
      Serves t m₀ s us (us.foldl (turn t) s) := by
  intro us
  induction us with
  | nil =>
    exact fun hs _ _ => ⟨.refl hs, (List.append_nil _).symm,
      fun log h => (List.append_nil log).symm ▸ h⟩
  | cons u us ih =>
    intro s hs hlt hf
    rw [List.foldl_cons] at hf ⊢
    have hgoes := turn_goes hs (hlt u List.mem_cons_self)
    have hfault := fault_of_turns hf
    have hrest := ih hgoes.keeps.coherent
      (fun u' hu' o ho => hgoes.keeps.lt_size (hlt u' (List.mem_cons_of_mem u hu') o ho)) hf
    refine ⟨hgoes.keeps.trans hrest.keeps, ?_, fun log h => ?_⟩
    · rw [hrest.waiting]
      rcases hgoes.waiting_cases with ⟨hwaiting, hno⟩ | ⟨hwaiting, hwaits⟩
      · rw [hwaiting, List.filter_cons_of_neg (by rw [hno hfault]; exact Bool.false_ne_true)]
      · rw [hwaiting, List.filter_cons_of_pos hwaits, List.map_cons, List.append_assoc,
          List.singleton_append]
    · have hbooks := hrest.books _ (h.goes hid (hlt u List.mem_cons_self) hgoes hfault)
      cases hd : u.dispatch? with
      | none =>
        rw [hd, Option.toList_none, List.append_nil] at hbooks
        rwa [List.filterMap_cons_none hd]
      | some d =>
        rw [hd, List.append_assoc] at hbooks
        rwa [List.filterMap_cons_some hd]

theorem fault_step (hs : s.Coherent t m₀) (hf : (s.step t).fault = none) : s.fault = none := by
  rw [step_eq_turns hs] at hf
  exact (opens_opened hs).fault ▸ fault_of_turns hf

theorem Opens.calls_diagnostics (h : s.Opens t m₀ first us) :
    first.calls = s.calls ∧ first.diagnostics = s.diagnostics ∧ first.waiting = s.waiting := by
  cases h with
  | idle hpop => exact ⟨rfl, rfl, rfl⟩
  | known hpop => exact ⟨rfl, rfl, rfl⟩
  | arrive hpop hp hos hnew h => exact ⟨h.calls, h.diagnostics, h.waiting⟩
  | enter hpop h => exact ⟨h.calls, h.diagnostics, h.waiting⟩

theorem Opens.books (h : s.Opens t m₀ first us) (hbooks : Books t m₀ log s) :
    Books t m₀ log first := by
  obtain ⟨hcalls, hdiagnostics, -⟩ := h.calls_diagnostics
  constructor
  · rw [hdiagnostics, h.heap]
    exact hbooks.diagnostics
  · rw [hcalls, h.heap]
    exact hbooks.edge
  · rw [hcalls, h.heap]
    exact hbooks.answered
  · rw [h.heap]
    exact hbooks.object_lt

theorem Books.step (h : Books t m₀ log s) (hid : ∀ m M, t.method? m = some M → M.id = m)
    (hs : s.Coherent t m₀)
    (hf : (s.step t).fault = none) : Books t m₀ (log ++ s.dispatches t) (s.step t) := by
  have hopens := opens_opened hs
  rw [step_eq_turns hs] at hf ⊢
  exact (serves_turns hid (hopens.coherent hs) (fun _ hu => hopens.object_lt hs hu) hf).books log
    (hopens.books h)

end Solver

/-! ## The calls of methods -/

/-- The calls of a method. -/
def Method.invocations (m : Method) : List Invocation := m.instrs.filterMap Instr.invocation?

theorem Method.mem_invocations {m : Method} {c : Invocation} :
    c ∈ m.invocations ↔ .call c ∈ m.instrs := by
  unfold invocations
  rw [List.mem_filterMap]
  constructor
  · rintro ⟨i, hi, hc⟩
    exact Instr.invocation?_eq_some.mp hc ▸ hi
  · exact fun h => ⟨_, h, rfl⟩

theorem Method.stmt_of_mem_invocations {m : Method} {c : Invocation} (h : c ∈ m.invocations) :
    c.stmt ∈ m.body ∧ c.stmt.instr? = some (.call c) := by
  obtain ⟨st, hst, hi⟩ := List.mem_filterMap.mp (mem_invocations.mp h)
  obtain ⟨rfl, -, -⟩ := Stmt.of_instr?_call hi
  exact ⟨hst, hi⟩

theorem Method.nodup_invocations {m : Method} (h : m.body.Nodup) : m.invocations.Nodup := by
  have hstmt : ∀ {st : Stmt} {c : Invocation}, c ∈ st.instr?.bind Instr.invocation? →
      c.stmt = st := by
    intro st c hc
    obtain ⟨i, hi, hc⟩ := Option.bind_eq_some_iff.mp hc
    exact (Stmt.of_instr?_call (Instr.invocation?_eq_some.mp hc ▸ hi)).1
  unfold invocations instrs
  rw [List.filterMap_filterMap]
  exact h.filterMap fun st st' c hc hc' => (hstmt hc).symm.trans (hstmt hc')

/-- No statement stands twice in the bodies of methods. -/
structure ClassTable.Single (t : ClassTable) : Prop where
  nodup : ∀ {id m}, t.method? id = some m → m.body.Nodup
  parent : ∀ {id m}, t.method? id = some m → ∀ st ∈ m.body, st.parent = id

theorem ClassTable.Single.unique {t : ClassTable} (ht : t.Single) {m m' : MethodId} {M M' : Method}
    {c : Invocation}
    (hM : t.method? m = some M) (hM' : t.method? m' = some M') (hc : c ∈ M.invocations)
    (hc' : c ∈ M'.invocations) :
    m = m' :=
  (ht.parent hM _ (Method.stmt_of_mem_invocations hc).1).symm.trans
    (ht.parent hM' _ (Method.stmt_of_mem_invocations hc').1)

/-! ## Who has a turn -/

namespace Solver

variable {t : ClassTable} {m₀ : Memo} {s s' first : Solver} {us : List Turn} {log : List Dispatch}
  {m : MethodId}
  {M : Method} {v : Var}

/-- The call stands in a method that was entered. -/
def Made (t : ClassTable) (s : Solver) (c : Invocation) : Prop :=
  ∃ m, s.Entered m ∧ ∃ M, t.method? m = some M ∧ c ∈ M.invocations

/-- How a call of a method that is entered looks for its target: once if it is static, otherwise for
each object at its receiver. -/
def dispatchesOf (s : Solver) (c : Invocation) : List Dispatch :=
  if c.call.kind = .static then [⟨c, none⟩]
  else (c.call.recv.toList.flatMap s.objectsAt).map fun o => ⟨c, some o⟩

/-- The object is one that the call meets: none if the call is static, otherwise one at its
receiver. -/
def Meets (s : Solver) (d : Dispatch) : Prop :=
  if d.site.call.kind = .static then d.object = none
  else ∃ v o, d.site.call.recv = some v ∧ d.object = some o ∧ s.Holds (.var v) o

/-- The log has exactly the calls that had to look for their targets, each once: those of methods
that were entered, with the objects that they meet. -/
structure Served (t : ClassTable) (log : List Dispatch) (s : Solver) : Prop where
  nodup : log.Nodup
  mem_iff : ∀ d, d ∈ log ↔ s.Made t d.site ∧ s.Meets d
  waiting_iff : ∀ c, .call c ∈ s.waiting ↔ c.call.kind ≠ .static ∧ c.call.recv.isSome ∧ s.Made t c
  waiting_nodup : (s.waiting.filterMap Instr.invocation?).Nodup

theorem filterMap_turnsOf (s : Solver) (i : Instr) :
    (s.turnsOf i).filterMap Turn.dispatch? = i.invocation?.toList.flatMap s.dispatchesOf := by
  have hon : ∀ os : List Nat, (os.map fun o => (⟨i, some o⟩ : Turn)).filterMap Turn.dispatch? =
      i.invocation?.toList.flatMap fun c => os.map fun o => ⟨c, some o⟩ := by
    intro os
    rw [List.filterMap_map]
    cases i with
    | call c =>
      show os.filterMap (fun o => some (⟨c, some o⟩ : Dispatch)) = _
      rw [List.filterMap_eq_map']
      simp [Instr.invocation?]
    | _ => exact List.filterMap_eq_nil_iff.mpr fun _ _ => rfl
  unfold turnsOf
  cases i with
  | call c =>
    unfold dispatchesOf
    by_cases hstatic : c.call.kind = .static
    · have hd : Turn.dispatch? ⟨.call c, none⟩ = some ⟨c, none⟩ := if_pos hstatic
      rw [List.filterMap_cons_some hd, hon]
      simp [Instr.invocation?, Instr.waitsAt?, hstatic]
    · have hd : Turn.dispatch? ⟨.call c, none⟩ = none := if_neg hstatic
      rw [List.filterMap_cons_none hd, hon]
      simp [Instr.invocation?, Instr.waitsAt?, hstatic]
  | _ =>
    rw [List.filterMap_cons_none rfl, hon]
    rfl

theorem filterMap_agenda_method (hM : t.method? m = some M) :
    (s.agenda t (.method m)).filterMap Turn.dispatch? = M.invocations.flatMap s.dispatchesOf := by
  unfold Method.invocations
  rw [agenda_method hM, List.filterMap_flatMap, List.filterMap_eq_flatMap_toList, List.flatMap_assoc]
  exact List.flatMap_congr fun i _ => filterMap_turnsOf s i

theorem filterMap_agenda_delta {p : Nat} {os : ObjSet} (hp : s.flow.key? p = some (.var v)) :
    (s.agenda t (.delta p os)).filterMap Turn.dispatch? =
      (os.diff (s.flow.pts p)).ids.flatMap fun o =>
        ((s.waitingAt v).filterMap Instr.invocation?).map fun c => ⟨c, some o⟩ := by
  rw [agenda_delta_var hp, List.filterMap_flatMap]
  refine List.flatMap_congr fun o _ => ?_
  rw [List.filterMap_map, List.map_filterMap]
  refine List.filterMap_congr fun i _ => ?_
  cases i <;> rfl

theorem mem_dispatchesOf (hflow : s.flow.WellFormed) {c : Invocation} {d : Dispatch} :
    d ∈ s.dispatchesOf c ↔ d.site = c ∧ s.Meets d := by
  obtain ⟨site, object⟩ := d
  unfold dispatchesOf Meets
  dsimp only
  constructor
  · intro hd
    split_ifs at hd with hkind
    · obtain ⟨rfl, rfl⟩ := Dispatch.mk.inj (List.mem_singleton.mp hd)
      exact ⟨rfl, by rw [if_pos hkind]⟩
    · obtain ⟨o, ho, heq⟩ := List.mem_map.mp hd
      obtain ⟨rfl, rfl⟩ := Dispatch.mk.inj heq
      obtain ⟨v, hv, ho⟩ := List.mem_flatMap.mp ho
      rw [if_neg hkind]
      exact ⟨rfl, v, o, Option.mem_toList.mp hv, rfl, (mem_objectsAt_iff hflow).mp ho⟩
  · rintro ⟨rfl, hd⟩
    split_ifs at hd ⊢
    · exact List.mem_singleton.mpr (hd ▸ rfl)
    · obtain ⟨v, o, hv, rfl, ho⟩ := hd
      exact List.mem_map.mpr ⟨o, List.mem_flatMap.mpr ⟨v, Option.mem_toList.mpr hv,
        (mem_objectsAt_iff hflow).mpr ho⟩, rfl⟩

theorem nodup_dispatchesOf (hobjects : ∀ v, (s.objectsAt v).Nodup) (c : Invocation) :
    (s.dispatchesOf c).Nodup := by
  unfold dispatchesOf
  split_ifs
  · exact List.nodup_singleton _
  · refine List.Nodup.map (fun o o' heq => Option.some.inj (Dispatch.mk.inj heq).2) ?_
    cases c.call.recv with
    | none => exact List.nodup_nil
    | some v =>
      rw [Option.toList_some, List.flatMap_singleton]
      exact hobjects v

theorem mem_invocations_waitingAt {c : Invocation} :
    c ∈ (s.waitingAt v).filterMap Instr.invocation? ↔
    .call c ∈ s.waiting ∧ c.call.recv = some v := by
  rw [List.mem_filterMap]
  constructor
  · rintro ⟨i, hi, hc⟩
    rw [Instr.invocation?_eq_some.mp hc] at hi
    exact mem_waitingAt.mp hi
  · exact fun h => ⟨.call c, mem_waitingAt.mpr h, rfl⟩

theorem nodup_invocations_waitingAt (h : (s.waiting.filterMap Instr.invocation?).Nodup) (v : Var) :
    ((s.waitingAt v).filterMap Instr.invocation?).Nodup := by
  unfold waitingAt
  rw [List.filterMap_flatMap, List.nodup_flatMap]
  refine ⟨fun r _ => h.sublist (List.filter_sublist.filterMap _), (List.nodup_range).imp
    fun {r r'} hne => ?_⟩
  -- a call has one rank only
  have hrank : ∀ {r : Nat} {c : Invocation},
      c ∈ ((s.waiting.filter fun i => i.base? = some v ∧ i.rank = r).filterMap
      Instr.invocation?) → (Instr.call c).rank = r := by
    intro r c hc
    obtain ⟨i, hi, hc⟩ := List.mem_filterMap.mp hc
    rw [Instr.invocation?_eq_some.mp hc] at hi
    exact (of_decide_eq_true (List.mem_filter.mp hi).2).2
  exact fun c hc hc' => hne ((hrank hc).symm.trans (hrank hc'))

theorem meets_congr (hholds : ∀ v o, s'.Holds (.var v) o ↔ s.Holds (.var v) o) (d : Dispatch) :
    s'.Meets d ↔ s.Meets d := by
  unfold Meets
  simp only [hholds]

/-- What calls meet after objects arrived at a variable. -/
theorem meets_arrive {fresh : List Nat}
    (hholds : ∀ v' o, s'.Holds (.var v') o ↔ s.Holds (.var v') o ∨ (v' = v ∧ o ∈ fresh))
    (d : Dispatch) :
    s'.Meets d ↔ s.Meets d ∨
      (d.site.call.kind ≠ .static ∧ d.site.call.recv = some v ∧
        ∃ o ∈ fresh, d.object = some o) := by
  unfold Meets
  split_ifs with hkind
  · exact ⟨Or.inl, fun hd => hd.elim id fun hd => absurd hkind hd.1⟩
  · simp only [hholds]
    constructor
    · rintro ⟨v', o, hv', ho, hheld | ⟨rfl, hfresh⟩⟩
      · exact Or.inl ⟨v', o, hv', ho, hheld⟩
      · exact Or.inr ⟨hkind, hv', o, hfresh, ho⟩
    · rintro (⟨v', o, hv', ho, hheld⟩ | ⟨-, hv, o, hfresh, ho⟩)
      · exact ⟨v', o, hv', ho, Or.inl hheld⟩
      · exact ⟨v, o, hv, ho, Or.inr ⟨rfl, hfresh⟩⟩

namespace Served

variable (h : Served t log s)

include h

theorem congr (hmade : ∀ c, s'.Made t c ↔ s.Made t c)
    (hholds : ∀ v o, s'.Holds (.var v) o ↔ s.Holds (.var v) o)
    (hwaiting : s'.waiting = s.waiting) : Served t log s' where
  nodup := h.nodup
  mem_iff d := by rw [hmade, meets_congr hholds, h.mem_iff]
  waiting_iff c := by rw [hwaiting, hmade, h.waiting_iff]
  waiting_nodup := hwaiting.symm ▸ h.waiting_nodup

/-- Objects arrive at a variable, and the calls that wait there look for their targets. -/
theorem arrive {fresh : List Nat} (hfresh : fresh.Nodup) (hnew : ∀ o ∈ fresh, ¬ s.Holds (.var v) o)
    (hmade : ∀ c, s'.Made t c ↔ s.Made t c)
    (hholds : ∀ v' o, s'.Holds (.var v') o ↔ s.Holds (.var v') o ∨ (v' = v ∧ o ∈ fresh))
    (hwaiting : s'.waiting = s.waiting) :
    Served t (log ++ fresh.flatMap fun o => ((s.waitingAt v).filterMap Instr.invocation?).map
      fun c => ⟨c, some o⟩)
      s' := by
  have hmem : ∀ {d : Dispatch}, d ∈ (fresh.flatMap fun o =>
      ((s.waitingAt v).filterMap Instr.invocation?).map fun c => (⟨c, some o⟩ : Dispatch)) ↔
      .call d.site ∈ s.waiting ∧ d.site.call.recv = some v ∧ ∃ o ∈ fresh, d.object = some o := by
    rintro ⟨c, object⟩
    simp only [List.mem_flatMap, List.mem_map, mem_invocations_waitingAt, Dispatch.mk.injEq]
    constructor
    · rintro ⟨o, ho, c', hc', rfl, rfl⟩
      exact ⟨hc'.1, hc'.2, o, ho, rfl⟩
    · rintro ⟨hc, hrecv, o, ho, rfl⟩
      exact ⟨o, ho, c, ⟨hc, hrecv⟩, rfl, rfl⟩
  refine ⟨?_, fun d => ?_, fun c => by rw [hwaiting, hmade, h.waiting_iff],
    hwaiting.symm ▸ h.waiting_nodup⟩
  · refine List.nodup_append.mpr ⟨h.nodup, List.nodup_flatMap.mpr ⟨fun o _ => ?_, ?_⟩, ?_⟩
    · exact (nodup_invocations_waitingAt h.waiting_nodup v).map
        fun c c' heq => (Dispatch.mk.inj heq).1
    · refine hfresh.imp fun {o o'} hne d hd hd' => hne ?_
      obtain ⟨c, -, rfl⟩ := List.mem_map.mp hd
      obtain ⟨c', -, heq⟩ := List.mem_map.mp hd'
      exact Option.some.inj (Dispatch.mk.inj heq).2.symm
    · -- what is in the log already was met by an object that was there before
      rintro d hold _ hd rfl
      obtain ⟨hwaits, hrecv, o, ho, hobject⟩ := hmem.mp hd
      have hmeets := ((h.mem_iff d).mp hold).2
      unfold Meets at hmeets
      rw [if_neg ((h.waiting_iff _).mp hwaits).1] at hmeets
      obtain ⟨v', o', hrecv', hobject', hheld⟩ := hmeets
      obtain rfl := Option.some.inj (hrecv.symm.trans hrecv')
      obtain rfl := Option.some.inj (hobject.symm.trans hobject')
      exact hnew o ho hheld
  · rw [List.mem_append, h.mem_iff, hmem, hmade, meets_arrive hholds, h.waiting_iff]
    constructor
    · rintro (⟨hmade, hmeets⟩ | ⟨⟨hkind, -, hmade⟩, hrecv⟩)
      · exact ⟨hmade, Or.inl hmeets⟩
      · exact ⟨hmade, Or.inr ⟨hkind, hrecv⟩⟩
    · rintro ⟨hmade, hmeets | ⟨hkind, hrecv, ho⟩⟩
      · exact Or.inl ⟨hmade, hmeets⟩
      · exact Or.inr ⟨⟨hkind, Option.isSome_of_eq_some hrecv, hmade⟩, hrecv, ho⟩

/-- A method is entered, and its calls look for their targets. -/
theorem enter (ht : t.Single) (hM : t.method? m = some M) (hnew : ¬ s.Entered m)
    (hentered : ∀ m', s'.Entered m' ↔ s.Entered m' ∨ m' = m) (hflow : s.flow.WellFormed)
    (hobjects : ∀ v, (s.objectsAt v).Nodup)
    (hholds : ∀ v o, s'.Holds (.var v) o ↔ s.Holds (.var v) o)
    (hwaiting : s'.waiting = s.waiting ++ M.instrs.filter fun i => i.waitsAt?.isSome) :
    Served t (log ++ M.invocations.flatMap s.dispatchesOf) s' := by
  have hmade : ∀ c, s'.Made t c ↔ s.Made t c ∨ c ∈ M.invocations := by
    intro c
    unfold Made
    simp only [hentered, or_and_right, exists_or, exists_eq_left, hM, Option.some.injEq,
      exists_eq_left']
  -- calls of the method were not made before, since a statement stands in one method only
  have hfresh : ∀ c ∈ M.invocations, ¬ s.Made t c := by
    rintro c hc ⟨m', hm', M', hM', hc'⟩
    exact hnew (ht.unique hM' hM hc' hc ▸ hm')
  have hmem : ∀ {d : Dispatch}, d ∈ M.invocations.flatMap s.dispatchesOf ↔ d.site ∈ M.invocations ∧
      s.Meets d := by
    intro d
    simp only [List.mem_flatMap, mem_dispatchesOf hflow]
    exact ⟨fun ⟨c, hc, hd⟩ => hd.1 ▸ ⟨hc, hd.2⟩, fun ⟨hc, hd⟩ => ⟨d.site, hc, rfl, hd⟩⟩
  have hwaits : ∀ c, .call c ∈ M.instrs.filter (fun i => i.waitsAt?.isSome) ↔
      c ∈ M.invocations ∧ c.call.kind ≠ .static ∧ c.call.recv.isSome := by
    intro c
    rw [List.mem_filter, Method.mem_invocations]
    refine and_congr_right fun _ => ?_
    unfold Instr.waitsAt?
    dsimp only
    split_ifs with hkind <;> simp [hkind]
  have hinvocations := Method.nodup_invocations (ht.nodup hM)
  refine ⟨?_, fun d => ?_, fun c => ?_, ?_⟩
  · refine List.nodup_append.mpr ⟨h.nodup, List.nodup_flatMap.mpr ⟨fun c _ => ?_, ?_⟩, ?_⟩
    · exact nodup_dispatchesOf hobjects c
    · refine hinvocations.imp fun {c c'} hne d hd hd' => hne ?_
      exact ((mem_dispatchesOf hflow).mp hd).1.symm.trans ((mem_dispatchesOf hflow).mp hd').1
    · rintro d hold _ hd rfl
      exact hfresh _ (hmem.mp hd).1 ((h.mem_iff d).mp hold).1
  · rw [List.mem_append, h.mem_iff, hmem, hmade, meets_congr hholds, or_and_right]
  · rw [hwaiting, List.mem_append, h.waiting_iff, hwaits, hmade]
    constructor
    · rintro (⟨hkind, hrecv, hmade⟩ | ⟨hc, hkind, hrecv⟩)
      · exact ⟨hkind, hrecv, Or.inl hmade⟩
      · exact ⟨hkind, hrecv, Or.inr hc⟩
    · rintro ⟨hkind, hrecv, hmade | hc⟩
      · exact Or.inl ⟨hkind, hrecv, hmade⟩
      · exact Or.inr ⟨hc, hkind, hrecv⟩
  · rw [hwaiting, List.filterMap_append]
    refine List.nodup_append.mpr ⟨h.waiting_nodup,
      hinvocations.sublist (List.filter_sublist.filterMap _), ?_⟩
    rintro c hold _ hc rfl
    obtain ⟨i, hi, hi'⟩ := List.mem_filterMap.mp hold
    obtain ⟨j, hj, hj'⟩ := List.mem_filterMap.mp hc
    rw [Instr.invocation?_eq_some.mp hi'] at hi
    rw [Instr.invocation?_eq_some.mp hj'] at hj
    exact hfresh c ((hwaits c).mp hj).1 ((h.waiting_iff c).mp hi).2.2

end Served

/-! ## Steps -/

theorem filter_waits_turnsOf (s : Solver) (i : Instr) :
    ((s.turnsOf i).filter Turn.waits).map Turn.instr = if i.waitsAt?.isSome then [i] else [] := by
  have hon : ∀ os : List Nat, (os.map fun o => (⟨i, some o⟩ : Turn)).filter Turn.waits = [] := by
    intro os
    rw [List.filter_eq_nil_iff]
    intro u hu
    obtain ⟨o, -, rfl⟩ := List.mem_map.mp hu
    exact Bool.false_ne_true
  unfold turnsOf
  rw [List.filter_cons, hon]
  show List.map _ (if i.waitsAt?.isSome then _ else _) = _
  split_ifs <;> rfl

theorem filter_waits_agenda_method (hM : t.method? m = some M) :
    ((s.agenda t (.method m)).filter Turn.waits).map Turn.instr =
      M.instrs.filter fun i => i.waitsAt?.isSome := by
  rw [agenda_method hM]
  induction M.instrs with
  | nil => rfl
  | cons i is ih =>
    rw [List.flatMap_cons, List.filter_append, List.map_append, ih, filter_waits_turnsOf,
      List.filter_cons]
    split_ifs <;> rfl

theorem filter_waits_agenda_delta (t : ClassTable) (s : Solver) (p : Nat) (os : ObjSet) :
    (s.agenda t (.delta p os)).filter Turn.waits = [] := by
  rw [List.filter_eq_nil_iff]
  intro u hu
  obtain ⟨v, -, o, -, i, -, rfl⟩ := exists_of_mem_agenda_delta hu
  exact Bool.false_ne_true

theorem Keeps.holds_iff (h : Keeps t m₀ s s') {q : Pointer} {o : Nat} :
    s'.Holds q o ↔ s.Holds q o := by
  constructor
  · rintro ⟨n, hn, ho⟩
    rw [h.pts] at ho
    have hlt : n < s.flow.size := Nat.lt_of_not_le fun hle => by
      rw [FlowGraph.pts_eq_of_size_le hle] at ho
      exact ObjSet.not_mem_empty ho
    obtain ⟨q', hq'⟩ := FlowGraph.exists_key? hlt
    rw [Option.some.inj (hn.symm.trans (h.key hq'))]
    exact ⟨n, hq', ho⟩
  · rintro ⟨n, hn, ho⟩
    exact ⟨n, h.key hn, (h.pts n).symm ▸ ho⟩

theorem entered_taken_delta {p : Nat} {os : ObjSet} {queue : Queue Work}
    (hpop : s.queue.pop? = some (.delta p os, queue)) (m : MethodId) : (s.taken queue).Entered m ↔
      s.Entered m := by
  unfold Entered
  rw [mem_queued_iff_taken hpop]
  simp [taken]

theorem entered_taken_method {queue : Queue Work} (hs : s.Coherent t m₀)
    (hpop : s.queue.pop? = some (.method m, queue)) :
    ¬ s.Entered m ∧ ∀ m', (s.taken queue).Entered m' ↔ s.Entered m' ∨ m' = m := by
  have hqueued : s.queued = m :: (s.taken queue).queued := by
    unfold queued
    rw [Queue.toList_of_pop? hpop]
    rfl
  have hmem : m ∈ s.queued := hqueued ▸ List.mem_cons_self
  have hnot : m ∉ (s.taken queue).queued := (List.nodup_cons.mp (hqueued ▸ hs.queued_nodup)).1
  refine ⟨fun h => h.2 hmem, fun m' => ?_⟩
  show m' ∈ s.calls.reachable ∧ m' ∉ (s.taken queue).queued ↔
    (m' ∈ s.calls.reachable ∧ m' ∉ s.queued) ∨ m' = m
  rw [hqueued, List.mem_cons, not_or]
  constructor
  · rintro ⟨hreach, hq⟩
    by_cases heq : m' = m
    · exact Or.inr heq
    · exact Or.inl ⟨hreach, heq, hq⟩
  · rintro (⟨hreach, -, hq⟩ | rfl)
    · exact ⟨hreach, hq⟩
    · exact ⟨hs.queued_reachable _ hmem, hnot⟩

theorem made_congr (hentered : ∀ m, s'.Entered m ↔ s.Entered m) (c : Invocation) :
    s'.Made t c ↔ s.Made t c := by
  unfold Made
  simp only [hentered]

theorem Served.opens (h : Served t log s) (ht : t.Single) (hs : s.Coherent t m₀)
    (hopens : s.Opens t m₀ first us)
    (hserves : Serves t m₀ first us s') : Served t (log ++ us.filterMap Turn.dispatch?) s' := by
  have hkeeps := hserves.keeps
  have hwaiting := hserves.waiting
  rw [hopens.calls_diagnostics.2.2] at hwaiting
  cases hopens with
  | idle hpop =>
    rw [List.filterMap_nil, List.append_nil]
    exact h.congr (made_congr hkeeps.entered) (fun _ _ => hkeeps.holds_iff)
      (hwaiting.trans (List.append_nil _))
  | known hpop =>
    rw [List.filterMap_nil, List.append_nil]
    exact h.congr (made_congr fun m => (hkeeps.entered m).trans (entered_taken_delta hpop m))
      (fun _ _ => hkeeps.holds_iff) (hwaiting.trans (List.append_nil _))
  | @arrive p os queue hpop hp hos _ hspread =>
    have hmade : ∀ c, s'.Made t c ↔ s.Made t c := made_congr fun m =>
      (hkeeps.entered m).trans ((hspread.keeps.entered m).trans (entered_taken_delta hpop m))
    rw [filter_waits_agenda_delta, List.map_nil, List.append_nil] at hwaiting
    obtain ⟨q, hq⟩ := FlowGraph.exists_key? hp
    have hholds : ∀ q' o, s'.Holds q' o ↔ s.Holds q' o ∨ (q' = q ∧ o ∈ os.diff (s.flow.pts p)) :=
      fun q' o =>
      (hkeeps.holds_iff.trans hspread.keeps.holds_iff).trans (FlowGraph.holds_addPts hq)
    by_cases hvar : ∃ v, q = .var v
    · obtain ⟨v, rfl⟩ := hvar
      rw [filterMap_agenda_delta hq]
      refine h.arrive (hos.diff _).nodup (fun o ho hheld => ?_) hmade (fun v' o => ?_) hwaiting
      · exact (ObjSet.mem_diff.mp ho).2 ((hs.flow.holds_iff hq).mp hheld)
      · rw [hholds, Pointer.var.injEq]
        rfl
    · have hnil := agenda_delta_of_not_var (t := t) (p := p)
        (fun v hv => hvar ⟨v, Option.some.inj (hq.symm.trans hv)⟩) os
      rw [hnil, List.filterMap_nil, List.append_nil]
      refine h.congr hmade (fun v o => (hholds _ o).trans (or_iff_left ?_)) hwaiting
      exact fun heq => hvar ⟨v, heq.1.symm⟩
  | @enter m queue hpop hspread =>
    obtain ⟨hnew, hentered⟩ := entered_taken_method hs hpop
    have hentered' : ∀ m', s'.Entered m' ↔ s.Entered m' ∨ m' = m := fun m' =>
      (hkeeps.entered m').trans ((hspread.keeps.entered m').trans (hentered m'))
    have hholds : ∀ v o, s'.Holds (.var v) o ↔ s.Holds (.var v) o := fun v o =>
      hkeeps.holds_iff.trans hspread.keeps.holds_iff
    cases hM : t.method? m with
    | some M =>
      rw [filter_waits_agenda_method hM] at hwaiting
      rw [filterMap_agenda_method hM]
      exact h.enter ht hM hnew hentered' hs.flow (fun v => (hs.pts _).nodup) hholds hwaiting
    | none =>
      have hnil := agenda_method_of_eq_none (s := s) hM
      rw [hnil, List.filter_nil, List.map_nil, List.append_nil] at hwaiting
      rw [hnil, List.filterMap_nil, List.append_nil]
      refine h.congr (fun c => ?_) hholds hwaiting
      unfold Made
      simp [hentered', or_and_right, exists_or, hM]

theorem Served.step (h : Served t log s) (ht : t.Single)
    (hid : ∀ m M, t.method? m = some M → M.id = m)
    (hs : s.Coherent t m₀) (hf : (s.step t).fault = none) : Served t (log ++ s.dispatches t)
    (s.step t) := by
  have hopens := opens_opened hs
  refine h.opens ht hs hopens ?_
  rw [step_eq_turns hs] at hf ⊢
  exact serves_turns hid (hopens.coherent hs) (fun _ hu => hopens.object_lt hs hu) hf

end Solver

end PointsTo
