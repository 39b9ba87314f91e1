import PointsTo.Proofs.Solver.Spread

/-!
# A step as a list of turns

Whatever the memory, a step of the solver opens with what arrives or is entered, and then statements
have their turns, one after the other: a statement has a turn of its own when its method is entered,
and one for each object that reaches its base. Who has a turn can be read off the state before the
step, since no turn changes what variables point to (`step_eq_turns`).

How a turn may go is said once (`Goes`). In particular a turn of a call is a `Dispatch`, for an
object or, if the call is static, without one. What comes of it depends only on the memory at the
start of the run.
-/

namespace PointsTo

/-- A statement whose turn it is: on its own, or for an object that reached its base. -/
structure Turn where
  instr : Instr
  object : Option Nat
  deriving DecidableEq

/-- A call that looks for its target, for a receiver object or, if it is static, without one. -/
structure Dispatch where
  site : Invocation
  object : Option Nat
  deriving DecidableEq

/-- The target of a call that is looked for in a state with these objects, if the memory gives the
answers that `m₀` gives. -/
def Dispatch.target (t : ClassTable) (m₀ : Memo) (heap : Array Site) (d : Dispatch) : Target :=
  Memo.answer (d.site.call.target t (d.object.bind fun o => (heap[o]?).map Site.type)) m₀

/-- The call that looks for its target in a turn, if there is one. -/
def Turn.dispatch? : Turn → Option Dispatch
  | ⟨.call c, some o⟩ => some ⟨c, some o⟩
  | ⟨.call c, none⟩ => if c.call.kind = .static then some ⟨c, none⟩ else none
  | _ => none

/-- The statement is put to wait in its turn. -/
def Turn.waits (u : Turn) : Bool := u.object.isNone && u.instr.waitsAt?.isSome

theorem Turn.waits_of_dispatch? {u : Turn} {d : Dispatch} (h : u.dispatch? = some d) :
    u.waits = false := by
  obtain ⟨i, object⟩ := u
  cases object with
  | some o => rfl
  | none =>
    cases i with
    | call c =>
      unfold dispatch? at h
      dsimp only at h
      split_ifs at h with hstatic
      simp [waits, Instr.waitsAt?, hstatic]
    | _ => simp [dispatch?] at h

namespace Solver

/-- A statement of a method that is entered, before it meets the objects at its base: it is put to
wait there, or it is performed. -/
def prepare (t : ClassTable) (s : Solver) (i : Instr) : Solver :=
  match i.waitsAt? with
  | some v =>
    if s.fault.isSome then s else { (s.pointer (.var v)).2 with waiting := s.waiting ++ [i] }
  | none => s.perform t i

/-- A statement has its turn. -/
def turn (t : ClassTable) (s : Solver) (u : Turn) : Solver :=
  match u.object with
  | some o => s.fire t o u.instr
  | none => s.prepare t u.instr

/-- The turns of a statement whose method is entered. -/
def turnsOf (s : Solver) (i : Instr) : List Turn :=
  ⟨i, none⟩ :: (i.waitsAt?.toList.flatMap s.objectsAt).map fun o => ⟨i, some o⟩

/-- The turns that a piece of work gives. -/
def agenda (t : ClassTable) (s : Solver) : Work → List Turn
  | .delta p os =>
    match s.flow.key? p with
    | some (.var v) =>
      (os.diff (s.flow.pts p)).ids.flatMap fun o => (s.waitingAt v).map fun i => ⟨i, some o⟩
    | _ => []
  | .method m =>
    match t.method? m with
    | some M => M.instrs.flatMap s.turnsOf
    | none => []

/-- Objects join what a node points to. -/
def join (s : Solver) (p : Nat) (fresh : ObjSet) : Solver :=
  { s with
    flow := s.flow.addPts p fresh
    facts := fresh.ids.foldl (fun fs o => fs.push (p, o)) s.facts }

/-- What is done with a piece of work before the turns that it gives. -/
def opening (t : ClassTable) (s : Solver) : Work → Solver
  | .delta p os =>
    if (os.diff (s.flow.pts p)).isEmpty then s else s.arrive t p (os.diff (s.flow.pts p))
  | .method m => s.tell (.reachable m)

/-- The turns of a step. -/
def turns (t : ClassTable) (s : Solver) : List Turn :=
  match s.queue.pop? with
  | some (w, _) => s.agenda t w
  | none => []

/-- The state of a step before the turns. -/
def opened (t : ClassTable) (s : Solver) : Solver :=
  match s.queue.pop? with
  | some (w, queue) => (s.taken queue).opening t w
  | none => s

variable {t : ClassTable} {m₀ : Memo} {s s' s'' : Solver} {u : Turn} {i : Instr} {c : Invocation}
  {callee : Method}
  {recv : Option Nat} {v : Var} {o : Nat} {w : Work} {queue : Queue Work}

/-! ## What turns leave alone -/

/-- The state is still coherent. Allocations keep their numbers, and nothing arrived anywhere or was
entered. -/
structure Keeps (t : ClassTable) (m₀ : Memo) (s s' : Solver) : Prop where
  coherent : s'.Coherent t m₀
  heap : ∀ o < s.heap.size, s'.heap[o]? = s.heap[o]?
  facts : s'.facts = s.facts
  pts : ∀ n, s'.flow.pts n = s.flow.pts n
  key : ∀ {n q}, s.flow.key? n = some q → s'.flow.key? n = some q
  entered : ∀ m, s'.Entered m ↔ s.Entered m

theorem Spreads.keeps (h : Spreads t m₀ s s') : Keeps t m₀ s s' where
  coherent := h.coherent
  heap o _ := by rw [h.heap]
  facts := h.facts
  pts := h.pts
  key := h.key
  entered m := by
    unfold Entered
    rw [h.calls, h.queued]

namespace Keeps

theorem refl (hs : s.Coherent t m₀) : Keeps t m₀ s s := (Spreads.refl hs).keeps

theorem lt_size (h : Keeps t m₀ s s') (ho : o < s.heap.size) : o < s'.heap.size := by
  have hsome := h.heap o ho
  rw [Array.getElem?_eq_getElem ho] at hsome
  exact (Array.getElem?_eq_some_iff.mp hsome).1

theorem trans (h : Keeps t m₀ s s') (h' : Keeps t m₀ s' s'') : Keeps t m₀ s s'' where
  coherent := h'.coherent
  heap o ho := (h'.heap o (h.lt_size ho)).trans (h.heap o ho)
  facts := h'.facts.trans h.facts
  pts n := (h'.pts n).trans (h.pts n)
  key hn := h'.key (h.key hn)
  entered m := (h'.entered m).trans (h.entered m)

theorem objectsAt_eq (h : Keeps t m₀ s s') (v : Var) : s'.objectsAt v = s.objectsAt v :=
  objectsAt_congr h.coherent.flow h.pts h.key v

theorem turnsOf_eq (h : Keeps t m₀ s s') (i : Instr) : s'.turnsOf i = s.turnsOf i := by
  unfold turnsOf
  rw [funext h.objectsAt_eq]

end Keeps

/-! ## Operations that do more than spread objects -/

theorem link_eq_ite (s : Solver) (c : Invocation) (recv : Option Nat) (callee : Method) :
    s.link t c recv callee =
    if c.args.length ≠ callee.formals.length then
      ((s.noteCall c callee).receive recv callee.receiver).fail
        (.argumentCount c.stmt.parent (Fault.shown c.call.text?) c.args.length callee.id)
    else
      passResult t c.call.result callee.returned
        (passArguments t c.args callee.formals
          ((s.noteCall c callee).receive recv callee.receiver)) := rfl

section Operations

variable (hs : s.Coherent t m₀)

include hs

theorem fail_keeps (f : Fault) : Keeps t m₀ s (s.fail f) :=
  { Keeps.refl hs with coherent := { hs with } }

theorem wait_keeps (i : Instr) : Keeps t m₀ s { s with waiting := s.waiting ++ [i] } :=
  { Keeps.refl hs with coherent := { hs with } }

theorem diagnose_keeps (d : Diagnostic) :
    Keeps t m₀ s { s with diagnostics := s.diagnostics.push d } :=
  { Keeps.refl hs with coherent := { hs with } }

theorem object_keeps (site : Site) : Keeps t m₀ s (s.object site).2 := by
  unfold object
  split
  · exact .refl hs
  · have hle : s.heap.size ≤ (s.heap.push site).size := by
      rw [Array.size_push]
      exact Nat.le_succ _
    refine { Keeps.refl hs with
      coherent := { hs with
        pts := fun n => (hs.pts n).mono hle
        delta := fun h => (hs.delta h).imp_right fun hos => hos.mono hle }
      heap := fun o ho => ?_ }
    rw [Array.getElem?_push_lt ho, Array.getElem?_eq_getElem ho]

/-- The target of a call becomes reachable; if it was not before, it is among the methods to be
entered. -/
theorem queued_noteCall (c : Invocation) (callee : Method) : (s.noteCall c callee).queued =
    s.queued ++ if callee.id ∈ s.calls.reachable then [] else [callee.id] := by
  by_cases h : (s.calls.edgeKind? c.stmt callee.id).isSome
  · obtain ⟨e, he, -, hcallee⟩ := hs.indexed.edgeKind?_isSome_iff.mp h
    rw [noteCall_of_isSome h, if_pos (hcallee ▸ hs.callee_reachable e he), List.append_nil]
  · rw [noteCall_of_not_isSome h]
    unfold queued
    dsimp only
    rw [Queue.toList_pushAll hs.queue, List.filterMap_append]
    split_ifs <;> rfl

theorem mem_reachable_noteCall {m : MethodId} :
    m ∈ (s.noteCall c callee).calls.reachable ↔ m ∈ s.calls.reachable ∨ m = callee.id := by
  by_cases h : (s.calls.edgeKind? c.stmt callee.id).isSome
  · obtain ⟨e, he, -, hcallee⟩ := hs.indexed.edgeKind?_isSome_iff.mp h
    have hreach := hcallee ▸ hs.callee_reachable e he
    rw [noteCall_of_isSome h]
    exact ⟨Or.inl, fun hm => hm.elim id fun heq => heq ▸ hreach⟩
  · rw [noteCall_of_not_isSome h]
    exact CallGraph.mem_ite_append

omit hs in
theorem mem_edges_of_noteCall {e : CallEdge Stmt MethodId}
    (h : e ∈ (s.noteCall c callee).calls.edges) :
    e ∈ s.calls.edges ∨ e = ⟨c.stmt, callee.id, c.call.kind.dispatched⟩ := by
  by_cases hedge : (s.calls.edgeKind? c.stmt callee.id).isSome
  · rw [noteCall_of_isSome hedge] at h
    exact Or.inl h
  · rw [noteCall_of_not_isSome hedge] at h
    exact (List.mem_append.mp h).imp_right List.mem_singleton.mp

omit hs in
theorem exists_edge_noteCall (hindexed : s.calls.Indexed) (c : Invocation) (callee : Method) :
    ∃ x ∈ (s.noteCall c callee).calls.edges, x.site = c.stmt ∧ x.callee = callee.id := by
  by_cases h : (s.calls.edgeKind? c.stmt callee.id).isSome
  · rw [noteCall_of_isSome h]
    exact hindexed.edgeKind?_isSome_iff.mp h
  · rw [noteCall_of_not_isSome h]
    exact ⟨_, List.mem_append_right _ (List.mem_singleton_self _), rfl, rfl⟩

theorem noteCall_keeps (c : Invocation) (callee : Method) : Keeps t m₀ s (s.noteCall c callee) := by
  have hqueued := queued_noteCall hs c callee
  have hreach : ∀ {m}, m ∈ (s.noteCall c callee).calls.reachable ↔ m ∈ s.calls.reachable ∨
      m = callee.id :=
    mem_reachable_noteCall hs
  have hwork : (s.noteCall c callee).queue.InBounds ∧
      ∀ {n os}, .delta n os ∈ (s.noteCall c callee).queue.toList →
        .delta n os ∈ s.queue.toList := by
    by_cases h : (s.calls.edgeKind? c.stmt callee.id).isSome
    · rw [noteCall_of_isSome h]
      exact ⟨hs.queue, id⟩
    · rw [noteCall_of_not_isSome h]
      refine ⟨hs.queue.pushAll _, fun {n os} hmem => ?_⟩
      rcases List.mem_append.mp (Queue.toList_pushAll hs.queue _ ▸ hmem) with hmem | hmem
      · exact hmem
      · split_ifs at hmem <;> simp at hmem
  have hcoherent : (s.noteCall c callee).Coherent t m₀ := by
    obtain ⟨calls, queue, events, heq⟩ := s.noteCall_frame c callee
    refine ⟨?_, ?_, hwork.1, ?_, fun {n os} h => ?_, indexed_noteCall hs.indexed c callee,
      fun e he => ?_,
      fun m hm => ?_, ?_⟩
    · exact heq ▸ hs.memo
    · exact heq ▸ hs.flow
    · exact heq ▸ hs.pts
    · have hdelta := hs.delta (hwork.2 h)
      rw [heq]
      exact hdelta
    · rw [hreach]
      rcases mem_edges_of_noteCall he with he | rfl
      · exact Or.inl (hs.callee_reachable e he)
      · exact Or.inr rfl
    · rw [hqueued] at hm
      rw [hreach]
      rcases List.mem_append.mp hm with hm | hm
      · exact Or.inl (hs.queued_reachable m hm)
      · split_ifs at hm
        · exact absurd hm List.not_mem_nil
        · exact Or.inr (List.mem_singleton.mp hm)
    · rw [hqueued]
      split_ifs with hold
      · rw [List.append_nil]
        exact hs.queued_nodup
      · refine List.nodup_append.mpr ⟨hs.queued_nodup, List.pairwise_singleton _ _, ?_⟩
        rintro m hm _ hm' rfl
        exact hold (List.mem_singleton.mp hm' ▸ hs.queued_reachable m hm)
  have hentered : ∀ m, (s.noteCall c callee).Entered m ↔ s.Entered m := by
    intro m
    unfold Entered
    rw [hreach, hqueued, List.mem_append, not_or]
    split_ifs with hold
    · constructor
      · rintro ⟨hm | rfl, hm', -⟩
        · exact ⟨hm, hm'⟩
        · exact ⟨hold, hm'⟩
      · exact fun ⟨hm, hm'⟩ => ⟨Or.inl hm, hm', List.not_mem_nil⟩
    · rw [List.mem_singleton]
      constructor
      · rintro ⟨hm | rfl, hm', hne⟩
        · exact ⟨hm, hm'⟩
        · exact absurd rfl hne
      · exact fun ⟨hm, hm'⟩ => ⟨Or.inl hm, hm', fun heq => hold (heq ▸ hm)⟩
  obtain ⟨calls, queue, events, heq⟩ := s.noteCall_frame c callee
  rw [heq] at hcoherent hentered ⊢
  exact { Keeps.refl hs with coherent := hcoherent, entered := hentered }

theorem receive_spreads (hrecv : ∀ o ∈ recv, o < s.heap.size) (this : Option Var) :
    Spreads t m₀ s (s.receive recv this) := by
  cases recv with
  | none => exact .refl hs
  | some o =>
    cases this with
    | none => exact .refl hs
    | some this =>
      have hp := pointer_spreads hs (.var this)
      refine hp.trans (enqueue_spreads hp.coherent (FlowGraph.lt_of_key? (key?_pointer _ _)) ?_)
      rw [hp.heap]
      exact ObjSet.below_singleton (hrecv o rfl)

/-- A call is connected with a method by noting it and spreading objects, unless the numbers of
arguments and parameters differ. -/
theorem exists_link_eq (hrecv : ∀ o ∈ recv, o < s.heap.size) (c : Invocation) (callee : Method) :
    ∃ s₁, Spreads t m₀ (s.noteCall c callee) s₁ ∧
      (s.link t c recv callee = s₁ ∨ ∃ f, t.Warrants f ∧ s.link t c recv callee = s₁.fail f) := by
  have hnote := noteCall_keeps hs c callee
  have hthis :=
    receive_spreads hnote.coherent (fun o ho => hnote.lt_size (hrecv o ho)) callee.receiver
  rw [link_eq_ite]
  split_ifs with hlen
  · exact ⟨_, hthis, Or.inr ⟨.argumentCount .., trivial, rfl⟩⟩
  · have hargs := passArguments_spreads hthis.coherent c.args callee.formals
    have hresult := passResult_spreads hargs.coherent c.call.result callee.returned
    exact ⟨_, (hthis.trans hargs).trans hresult, Or.inl rfl⟩

end Operations

/-! ## How a turn may go -/

/-- How the turn of a statement may go: there is a fault, objects are spread, the statement is put
to wait, an object is allocated, or a call has looked for its target, and there is none or it is
connected with the call. -/
inductive Goes (t : ClassTable) (m₀ : Memo) (s : Solver) (u : Turn) : Solver → Prop
  | stopped {f : Fault} {s' : Solver} (hf : s'.fault = some f) (hcause : s.fault = some f ∨
    t.Warrants f)
    (hheap : s'.heap = s.heap) (hwaiting : s'.waiting = s.waiting) (h : Keeps t m₀ s s') :
      Goes t m₀ s u s'
  | spread {s' : Solver} (hd : u.dispatch? = none) (hwaits : u.waits = false)
    (h : Spreads t m₀ s s') :
    Goes t m₀ s u s'
  | wait {s₁ : Solver} (hd : u.dispatch? = none) (hwaits : u.waits = true) (h : Spreads t m₀ s s₁) :
    Goes t m₀ s u { s₁ with waiting := s₁.waiting ++ [u.instr] }
  | alloc {site : Site} {s₁ s' : Solver} (hu : u = ⟨.new site, none⟩) (h₁ : Spreads t m₀ s s₁)
    (h : Spreads t m₀ (s₁.object site).2 s') : Goes t m₀ s u s'
  | unresolved {d : Dispatch} {e : ResolutionError} {s₁ s' : Solver} (hd : u.dispatch? = some d)
    (htarget : d.target t m₀ s.heap = .ok (.error e)) (h₁ : Spreads t m₀ s s₁)
    (h : Spreads t m₀ { s₁ with diagnostics := s₁.diagnostics.push ⟨d.site.stmt, d.object, e⟩ }
      s') :
    Goes t m₀ s u s'
  | resolved {d : Dispatch} {m : MethodId} {callee : Method} {s₁ s' : Solver}
    (hd : u.dispatch? = some d)
    (htarget : d.target t m₀ s.heap = .ok (.ok m)) (hm : t.method? m = some callee)
    (h₁ : Spreads t m₀ s s₁)
    (h : Spreads t m₀ (s₁.noteCall d.site callee) s') : Goes t m₀ s u s'

namespace Goes

variable (h : Goes t m₀ s u s')

include h

theorem keeps : Keeps t m₀ s s' := by
  cases h with
  | stopped hf hcause hheap hwaiting h => exact h
  | spread hd hwaits h => exact h.keeps
  | wait hd hwaits h => exact h.keeps.trans (wait_keeps h.coherent _)
  | alloc hu h₁ h => exact (h₁.keeps.trans (object_keeps h₁.coherent _)).trans h.keeps
  | unresolved hd htarget h₁ h =>
    exact (h₁.keeps.trans (diagnose_keeps h₁.coherent _)).trans h.keeps
  | resolved hd htarget hm h₁ h =>
    exact (h₁.keeps.trans (noteCall_keeps h₁.coherent _ _)).trans h.keeps

/-- As long as there is no fault, exactly the statements that have to wait do. -/
theorem waiting_cases : (s'.waiting = s.waiting ∧ (s'.fault = none → u.waits = false)) ∨
    (s'.waiting = s.waiting ++ [u.instr] ∧ u.waits = true) := by
  cases h with
  | stopped hf hcause hheap hwaiting h =>
    exact Or.inl ⟨hwaiting, fun hno => nomatch hno.symm.trans hf⟩
  | spread hd hwaits h => exact Or.inl ⟨h.waiting, fun _ => hwaits⟩
  | wait hd hwaits h => exact Or.inr ⟨by rw [h.waiting], hwaits⟩
  | alloc hu h₁ h =>
    obtain ⟨heap, heq⟩ := object_frame _ _
    rw [heq] at h
    exact Or.inl ⟨h.waiting.trans h₁.waiting, fun _ => by rw [hu]; rfl⟩
  | unresolved hd htarget h₁ h =>
    exact Or.inl ⟨h.waiting.trans h₁.waiting, fun _ => Turn.waits_of_dispatch? hd⟩
  | resolved hd htarget hm h₁ h =>
    obtain ⟨calls, queue, events, heq⟩ := noteCall_frame _ _ _
    rw [heq] at h
    exact Or.inl ⟨h.waiting.trans h₁.waiting, fun _ => Turn.waits_of_dispatch? hd⟩

/-- Only the turn of an allocation adds an object. -/
theorem heap_cases : s'.heap = s.heap ∨ ∃ site, u = ⟨.new site, none⟩ ∧
    s'.heap = (s.object site).2.heap := by
  cases h with
  | stopped hf hcause hheap hwaiting h => exact Or.inl hheap
  | spread hd hwaits h => exact Or.inl h.heap
  | wait hd hwaits h => exact Or.inl h.heap
  | @alloc site s₁ _ hu h₁ h =>
    refine Or.inr ⟨site, hu, h.heap.trans ?_⟩
    unfold object
    rw [h₁.heap]
    split <;> simp only [h₁.heap]
  | unresolved hd htarget h₁ h => exact Or.inl (h.heap.trans h₁.heap)
  | resolved hd htarget hm h₁ h =>
    obtain ⟨calls, queue, events, heq⟩ := noteCall_frame _ _ _
    rw [heq] at h
    exact Or.inl (h.heap.trans h₁.heap)

end Goes

/-! ## Every turn goes so -/

section Turns

variable (hs : s.Coherent t m₀)

include hs

theorem stopped_goes (hf : s.fault.isSome) (u : Turn) : Goes t m₀ s u s := by
  obtain ⟨f, hf⟩ := Option.isSome_iff_exists.mp hf
  exact .stopped hf (Or.inl hf) rfl rfl (.refl hs)

omit hs in
theorem fail_goes {s₁ : Solver} (h : Keeps t m₀ s s₁) (hheap : s₁.heap = s.heap)
    (hwaiting : s₁.waiting = s.waiting) {f : Fault} (hf : t.Warrants f) (u : Turn) :
    Goes t m₀ s u (s₁.fail f) :=
  .stopped rfl (Or.inr hf) hheap hwaiting (h.trans (fail_keeps h.coherent f))

theorem dispatch_goes (hrecv : ∀ o ∈ recv, o < s.heap.size) (hu : u.dispatch? = some ⟨c, recv⟩) :
    Goes t m₀ s u (s.dispatch t c recv) := by
  have hsettled := c.call.target_settled t (recv.bind s.typeOf?)
  have htarget : Dispatch.target t m₀ s.heap
      ⟨c, recv⟩ = (s.ask (c.call.target t (recv.bind s.typeOf?))).1 :=
    (hsettled m₀ s.memo hs.memo).1.symm
  have hask := ask_spreads hs hsettled
  unfold dispatch
  dsimp only
  generalize s.ask (c.call.target t (recv.bind s.typeOf?)) = x at htarget hask ⊢
  obtain ⟨target, s₁⟩ := x
  dsimp only at htarget hask ⊢
  cases target with
  | error f => exact fail_goes hask.keeps hask.heap hask.waiting (Call.warrants_of_target htarget) u
  | ok r =>
    cases r with
    | error e =>
      refine .unresolved hu htarget hask ?_
      have hdiagnose := diagnose_keeps hask.coherent ⟨c.stmt, recv, e⟩
      unfold Solver.unresolved
      dsimp only
      split_ifs
      · exact .refl hdiagnose.coherent
      · exact tell_spreads hdiagnose.coherent _
    | ok m =>
      dsimp only
      cases hm : t.method? m with
      | none => exact fail_goes (f := .absent) hask.keeps hask.heap hask.waiting trivial u
      | some callee =>
        dsimp only
        obtain ⟨s₂, hspread, heq | ⟨f, hf, heq⟩⟩ :=
          exists_link_eq hask.coherent (fun o ho => hask.heap.symm ▸ hrecv o ho) c callee
        · rw [heq]
          exact .resolved hu htarget hm hask hspread
        · have hkeeps :=
            (hask.keeps.trans (noteCall_keeps hask.coherent c callee)).trans hspread.keeps
          obtain ⟨calls, queue, events, hnote⟩ := noteCall_frame s₁ c callee
          rw [hnote] at hspread
          rw [heq]
          exact fail_goes hkeeps (hspread.heap.trans hask.heap)
            (hspread.waiting.trans hask.waiting) hf u

theorem fire_goes (ho : o < s.heap.size) (i : Instr) : Goes t m₀ s ⟨i, some o⟩ (s.fire t o i) := by
  unfold fire
  split_ifs with hf
  · exact stopped_goes hs hf _
  cases i with
  | load | store | arrayLoad | arrayStore => exact .spread rfl rfl (connect_spreads hs ..)
  | call c =>
    refine dispatch_goes hs ?_ rfl
    rintro _ ⟨⟩
    exact ho
  | _ => exact .spread rfl rfl (.refl hs)

/-- A statement that is not put to wait is performed without an object. -/
theorem perform_goes (hi : i.waitsAt? = none) : Goes t m₀ s ⟨i, none⟩ (s.perform t i) := by
  have hwaits : Turn.waits ⟨i, none⟩ = false := by simp [Turn.waits, hi]
  unfold perform
  split_ifs with hf
  · exact stopped_goes hs hf _
  cases i with
  | new site =>
    have hp := pointer_spreads hs (.var site.lhs)
    refine .alloc rfl hp (enqueue_spreads (object_keeps hp.coherent site).coherent ?_
      (ObjSet.below_singleton ?_))
    · have hlt := FlowGraph.lt_of_key? (key?_pointer s (.var site.lhs))
      obtain ⟨heap, heq⟩ := object_frame (s.pointer (.var site.lhs)).2 site
      rwa [heq]
    · have hsite : ((s.pointer (.var site.lhs)).2.object site).2.heap[
          ((s.pointer (.var site.lhs)).2.object site).1]? = some site :=
            getElem?_heap_object.mpr (Or.inr ⟨rfl, rfl⟩)
      exact (Array.getElem?_eq_some_iff.mp hsite).1
  | assign | cast | staticLoad | staticStore =>
    refine .spread rfl hwaits ?_
    dsimp only
    split_ifs
    · exact connect_spreads hs ..
    · exact .refl hs
  | load | store | arrayLoad | arrayStore =>
    refine .spread rfl hwaits ?_
    unfold Instr.waitsAt? at hi
    dsimp only at hi ⊢
    split_ifs at hi ⊢
    exact .refl hs
  | call c =>
    unfold Instr.waitsAt? at hi
    dsimp only at hi ⊢
    split_ifs at hi ⊢ with hstatic
    · exact dispatch_goes hs (by rintro _ ⟨⟩) (if_pos hstatic)
    · rw [hi]
      exact fail_goes (f := .absent) (.refl hs) rfl rfl trivial _
  | ret => exact .spread rfl hwaits (.refl hs)

theorem prepare_goes (i : Instr) : Goes t m₀ s ⟨i, none⟩ (s.prepare t i) := by
  unfold prepare
  cases hi : i.waitsAt? with
  | none => exact perform_goes hs hi
  | some v =>
    dsimp only
    split_ifs with hf
    · exact stopped_goes hs hf _
    · refine .wait ?_ (by simp [Turn.waits, hi]) (pointer_spreads hs (.var v))
      cases i with
      | call c =>
        unfold Instr.waitsAt? at hi
        dsimp only at hi
        split_ifs at hi with hstatic
        exact if_neg hstatic
      | _ => rfl

theorem turn_goes (hu : ∀ o ∈ u.object, o < s.heap.size) : Goes t m₀ s u (s.turn t u) := by
  obtain ⟨i, object⟩ := u
  cases object with
  | none => exact prepare_goes hs i
  | some o => exact fire_goes hs (hu o rfl) i

end Turns

/-! ## Steps -/

/-- What every turn keeps, a list of turns keeps. -/
theorem turns_induction {p : Solver → Prop} {us : List Turn}
    (hp : ∀ s, p s → ∀ u ∈ us, p (s.turn t u)) :
    ∀ {s : Solver}, p s → p (us.foldl (turn t) s) := by
  induction us with
  | nil => exact id
  | cons u us ih =>
    intro s h
    exact ih (fun s h u' hu' => hp s h u' (List.mem_cons_of_mem u hu'))
      (hp s h u List.mem_cons_self)

/-- A loop in which every round is a list of turns is a list of turns. -/
theorem foldl_eq_turns {β : Type} {f : Solver → β → Solver} {g : β → List Turn} {p : Solver → Prop}
    {xs : List β}
    (hf : ∀ s, p s → ∀ x ∈ xs, f s x = (g x).foldl (turn t) s)
    (hp : ∀ s, p s → ∀ u ∈ xs.flatMap g, p (s.turn t u)) :
    ∀ {s : Solver}, p s → xs.foldl f s = (xs.flatMap g).foldl (turn t) s := by
  induction xs with
  | nil => exact fun _ => rfl
  | cons x xs ih =>
    intro s h
    rw [List.flatMap_cons] at hp ⊢
    rw [List.foldl_cons, List.foldl_append, hf s h x List.mem_cons_self]
    refine ih (fun s h y hy => hf s h y (List.mem_cons_of_mem x hy))
      (fun s h u hu => hp s h u (List.mem_append_right _ hu)) ?_
    exact turns_induction (fun s h u hu => hp s h u (List.mem_append_left _ hu)) h

theorem perform_of_waitsAt? (hf : ¬ s.fault.isSome) (hi : i.waitsAt? = some v) :
    s.perform t i = s.register t v i := by
  unfold perform
  rw [if_neg hf]
  cases i with
  | load | store | arrayLoad | arrayStore =>
    unfold Instr.waitsAt? at hi
    dsimp only at hi ⊢
    split_ifs at hi ⊢
    rw [Option.some.inj hi]
  | call c =>
    unfold Instr.waitsAt? at hi
    dsimp only at hi ⊢
    split_ifs at hi ⊢
    rw [hi]
  | _ => exact nomatch hi

/-- A statement of a method that is entered has its own turn, and one for each object at its
base. -/
theorem perform_eq_turns (s : Solver) (i : Instr) :
    s.perform t i = (s.turnsOf i).foldl (turn t) s := by
  unfold turnsOf
  rw [List.foldl_cons, List.foldl_map]
  cases hi : i.waitsAt? with
  | none =>
    show _ = s.prepare t i
    unfold prepare
    rw [hi]
  | some v =>
    show _ = (Option.toList (some v) |>.flatMap s.objectsAt).foldl (fun s o => s.fire t o i)
      (s.prepare t i)
    unfold prepare
    rw [hi, Option.toList_some, List.flatMap_singleton]
    dsimp only
    split_ifs with hf
    · have hidle : ∀ o, s.fire t o i = s := fun o => if_pos hf
      rw [List.foldl_fixed' hidle]
      exact if_pos hf
    · rw [perform_of_waitsAt? hf hi]
      unfold register objectsAt
      dsimp only [pointer]
      rw [FlowGraph.pts_intern]

theorem keeps_turn {s₀ : Solver} (h : Keeps t m₀ s₀ s) (hu : ∀ o ∈ u.object, o < s₀.heap.size) :
    Keeps t m₀ s₀ (s.turn t u) :=
  h.trans (turn_goes h.coherent fun o ho => h.lt_size (hu o ho)).keeps

section Steps

variable (hs : s.Coherent t m₀)

include hs

theorem object_lt_of_mem_turnsOf (hu : u ∈ s.turnsOf i) : ∀ o ∈ u.object, o < s.heap.size := by
  rcases List.mem_cons.mp hu with rfl | hu
  · rintro _ ⟨⟩
  · obtain ⟨o, ho, rfl⟩ := List.mem_map.mp hu
    obtain ⟨v, -, ho⟩ := List.mem_flatMap.mp ho
    rintro _ ⟨⟩
    exact (hs.pts _).lt o ho

theorem enter_eq_turns (m : MethodId) :
    s.enter t m = (s.agenda t (.method m)).foldl (turn t) (s.opening t (.method m)) := by
  have htell := (tell_spreads hs (.reachable m)).keeps
  unfold enter agenda opening
  dsimp only
  cases t.method? m with
  | none => rfl
  | some M =>
    refine foldl_eq_turns (p := Keeps t m₀ s) (fun s' h i _ => ?_) (fun s' h u hu => ?_) htell
    · rw [perform_eq_turns, h.turnsOf_eq]
    · obtain ⟨i, -, hu⟩ := List.mem_flatMap.mp hu
      exact keeps_turn h (object_lt_of_mem_turnsOf hs hu)

omit hs in
theorem waiting_turn (h : s.Coherent t m₀) (ho : o < s.heap.size) (i : Instr) :
    (s.turn t ⟨i, some o⟩).waiting = s.waiting := by
  rcases (turn_goes (u := ⟨i, some o⟩) h (by rintro _ ⟨⟩; exact ho)).waiting_cases with
    ⟨heq, -⟩ | ⟨-, hwaits⟩
  · exact heq
  · exact nomatch hwaits

theorem Coherent.join {p : Nat} {os : ObjSet} (hp : p < s.flow.size) (hos : os.Below s.heap.size) :
    (s.join p (os.diff (s.flow.pts p))).Coherent t m₀ where
  memo := hs.memo
  flow := hs.flow.addPts p _
  queue := hs.queue
  pts n := by
    unfold Solver.join
    dsimp only
    by_cases hn : n = p
    · rw [hn, FlowGraph.pts_addPts_self hp]
      exact (hs.pts p).union_diff hos
    · rw [FlowGraph.pts_addPts_of_ne hn]
      exact hs.pts n
  delta h := (FlowGraph.size_addPts s.flow p _).symm ▸ hs.delta h
  indexed := hs.indexed
  callee_reachable := hs.callee_reachable
  queued_reachable := hs.queued_reachable
  queued_nodup := hs.queued_nodup

theorem arrive_spreads {p : Nat} {os : ObjSet} (hp : p < s.flow.size) (hos : os.Below s.heap.size) :
    Spreads t m₀ (s.join p (os.diff (s.flow.pts p))) (s.arrive t p (os.diff (s.flow.pts p))) := by
  refine foldl_send_spreads (hs.join hp hos) (fun e he => ?_) (hos.diff _)
  unfold join
  dsimp only
  rw [FlowGraph.size_addPts]
  exact hs.flow.target_lt (FlowGraph.out_addPts s.flow p _ p ▸ he)

theorem propagate_eq_turns {p : Nat} {os : ObjSet} (hp : p < s.flow.size)
    (hos : os.Below s.heap.size) :
    s.propagate t p os = (s.agenda t (.delta p os)).foldl (turn t) (s.opening t (.delta p os)) := by
  have harrive := arrive_spreads hs hp hos
  have hfresh := hos.diff (s.flow.pts p)
  unfold propagate agenda opening
  dsimp only
  generalize os.diff (s.flow.pts p) = fresh at *
  have hkey : (s.arrive t p fresh).flow.key? p = s.flow.key? p := by
    obtain ⟨q, hq⟩ := FlowGraph.exists_key? hp
    rw [hq]
    exact harrive.key ((FlowGraph.key?_addPts ..).trans hq)
  split_ifs with hempty
  · rw [ObjSet.isEmpty_iff.mp hempty]
    split <;> rfl
  · show (match (s.arrive t p fresh).flow.key? p with
      | some (.var v) => fresh.ids.foldl
        (fun (s : Solver) o => (s.waitingAt v).foldl (fun s i => s.fire t o i) s)
        (s.arrive t p fresh)
      | _ => s.arrive t p fresh) = _
    rw [hkey]
    split
    · next v _ =>
      -- the statements that wait at the variable go on waiting there while they have their turns
      refine foldl_eq_turns (p := fun s' => Keeps t m₀ (s.arrive t p fresh) s' ∧
        s'.waiting = s.waiting)
        (fun s' h o _ => ?_) (fun s' h u hu => ?_) ⟨.refl harrive.coherent, harrive.waiting⟩
      · have hat : s'.waitingAt v = s.waitingAt v := by
          unfold waitingAt
          rw [h.2]
        rw [hat, List.foldl_map]
        rfl
      · obtain ⟨o, ho, hu⟩ := List.mem_flatMap.mp hu
        obtain ⟨i, -, rfl⟩ := List.mem_map.mp hu
        have hlt : o < (s.arrive t p fresh).heap.size := harrive.heap.symm ▸ hfresh.lt o ho
        refine ⟨keeps_turn h.1 (by rintro _ ⟨⟩; exact hlt), ?_⟩
        rw [waiting_turn h.1.coherent (h.1.lt_size hlt) i, h.2]
    · rfl

theorem Coherent.taken (hpop : s.queue.pop? = some (w, queue)) : (s.taken queue).Coherent t m₀ := by
  have hlist := Queue.toList_of_pop? hpop
  have hqueued : (s.taken queue).queued.Sublist s.queued := by
    unfold queued
    rw [hlist]
    exact (List.sublist_cons_self w _).filterMap _
  exact { hs with
    queue := Queue.InBounds.of_pop? hpop
    delta := fun hmem => hs.delta (hlist ▸ List.mem_cons_of_mem w hmem)
    queued_reachable := fun m hm => hs.queued_reachable m (hqueued.subset hm)
    queued_nodup := hs.queued_nodup.sublist hqueued }

/-- A step opens, and then statements have their turns. -/
theorem step_eq_turns : s.step t = (s.turns t).foldl (turn t) (s.opened t) := by
  unfold step turns opened
  cases hpop : s.queue.pop? with
  | none => rfl
  | some x =>
    obtain ⟨w, queue⟩ := x
    have htaken := hs.taken hpop
    cases w with
    | delta p os =>
      obtain ⟨hp, hos⟩ := hs.delta (Queue.toList_of_pop? hpop ▸ List.mem_cons_self)
      exact propagate_eq_turns htaken hp hos
    | method m => exact enter_eq_turns htaken m

end Steps

/-- How a step opens, and the turns that follow: there is no work, all objects are there already,
objects arrive, or a method is entered. -/
inductive Opens (t : ClassTable) (m₀ : Memo) (s : Solver) : Solver → List Turn → Prop
  | idle (hpop : s.queue.pop? = none) : Opens t m₀ s s []
  | known {p : Nat} {os : ObjSet} {queue : Queue Work}
    (hpop : s.queue.pop? = some (.delta p os, queue)) :
    Opens t m₀ s (s.taken queue) []
  | arrive {p : Nat} {os : ObjSet} {queue : Queue Work}
    (hpop : s.queue.pop? = some (.delta p os, queue))
    (hp : p < s.flow.size) (hos : os.Below s.heap.size)
    (hnew : (os.diff (s.flow.pts p)).isEmpty = false)
    (h : Spreads t m₀ ((s.taken queue).join p (os.diff (s.flow.pts p)))
      ((s.taken queue).arrive t p (os.diff (s.flow.pts p)))) :
    Opens t m₀ s ((s.taken queue).arrive t p (os.diff (s.flow.pts p))) (s.agenda t (.delta p os))
  | enter {m : MethodId} {queue : Queue Work} (hpop : s.queue.pop? = some (.method m, queue))
    (h : Spreads t m₀ (s.taken queue) ((s.taken queue).tell (.reachable m))) :
    Opens t m₀ s ((s.taken queue).tell (.reachable m)) (s.agenda t (.method m))

theorem agenda_delta_var {p : Nat} {v : Var} (hp : s.flow.key? p = some (.var v)) (os : ObjSet) :
    s.agenda t (.delta p os) = (os.diff (s.flow.pts p)).ids.flatMap fun o =>
      (s.waitingAt v).map fun i => ⟨i, some o⟩ := by
  unfold agenda
  dsimp only
  rw [hp]

theorem agenda_delta_of_not_var {p : Nat} (hp : ∀ v, s.flow.key? p ≠ some (.var v)) (os : ObjSet) :
    s.agenda t (.delta p os) = [] := by
  unfold agenda
  dsimp only
  split
  · next v hv => exact absurd hv (hp v)
  · rfl

theorem agenda_method {m : MethodId} {M : Method} (hM : t.method? m = some M) :
    s.agenda t (.method m) = M.instrs.flatMap s.turnsOf := by
  unfold agenda
  dsimp only
  rw [hM]

theorem agenda_method_of_eq_none {m : MethodId} (hM : t.method? m = none) :
    s.agenda t (.method m) = [] := by
  unfold agenda
  dsimp only
  rw [hM]

/-- What arrives gives turns to the statements that wait for it. -/
theorem exists_of_mem_agenda_delta {p : Nat} {os : ObjSet} {u : Turn}
    (hu : u ∈ s.agenda t (.delta p os)) : ∃ v, s.flow.key? p = some (.var v) ∧
      ∃ o ∈ os.diff (s.flow.pts p), ∃ i ∈ s.waitingAt v, u = ⟨i, some o⟩ := by
  by_cases hp : ∃ v, s.flow.key? p = some (.var v)
  · obtain ⟨v, hv⟩ := hp
    rw [agenda_delta_var hv] at hu
    obtain ⟨o, ho, hu⟩ := List.mem_flatMap.mp hu
    obtain ⟨i, hi, rfl⟩ := List.mem_map.mp hu
    exact ⟨v, hv, o, ho, i, hi, rfl⟩
  · rw [agenda_delta_of_not_var (not_exists.mp hp)] at hu
    exact absurd hu List.not_mem_nil

theorem agenda_of_isEmpty {p : Nat} {os : ObjSet} (h : (os.diff (s.flow.pts p)).isEmpty) :
    s.agenda t (.delta p os) = [] := by
  unfold agenda
  dsimp only
  rw [ObjSet.isEmpty_iff.mp h]
  split <;> rfl

theorem opens_opened (hs : s.Coherent t m₀) : s.Opens t m₀ (s.opened t) (s.turns t) := by
  unfold opened turns
  cases hpop : s.queue.pop? with
  | none => exact .idle hpop
  | some x =>
    obtain ⟨w, queue⟩ := x
    have htaken := hs.taken hpop
    cases w with
    | delta p os =>
      obtain ⟨hp, hos⟩ := hs.delta (Queue.toList_of_pop? hpop ▸ List.mem_cons_self)
      by_cases hempty : (os.diff (s.flow.pts p)).isEmpty
      · have hfirst : (s.taken queue).opening t (.delta p os) = s.taken queue := if_pos hempty
        dsimp only
        rw [hfirst, agenda_of_isEmpty hempty]
        exact .known hpop
      · have hfirst : (s.taken queue).opening t (.delta p os) = (s.taken queue).arrive t p _ :=
          if_neg hempty
        dsimp only
        rw [hfirst]
        exact .arrive hpop hp hos (Bool.eq_false_iff.mpr hempty) (arrive_spreads htaken hp hos)
    | method m => exact .enter hpop (tell_spreads htaken _)

namespace Opens

variable {first : Solver} {us : List Turn}

theorem coherent (h : s.Opens t m₀ first us) (hs : s.Coherent t m₀) : first.Coherent t m₀ := by
  cases h with
  | idle hpop => exact hs
  | known hpop => exact hs.taken hpop
  | arrive hpop hp hos hnew h => exact h.coherent
  | enter hpop h => exact h.coherent

theorem heap (h : s.Opens t m₀ first us) : first.heap = s.heap := by
  cases h with
  | idle hpop => rfl
  | known hpop => rfl
  | arrive hpop hp hos hnew h => exact h.heap
  | enter hpop h => exact h.heap

theorem fault (h : s.Opens t m₀ first us) : first.fault = s.fault := by
  cases h with
  | idle hpop => rfl
  | known hpop => rfl
  | arrive hpop hp hos hnew h => exact h.fault
  | enter hpop h => exact h.fault

/-- Turns are for objects of the state. -/
theorem object_lt (h : s.Opens t m₀ first us) (hs : s.Coherent t m₀) (hu : u ∈ us) :
    ∀ o ∈ u.object, o < first.heap.size := by
  rw [h.heap]
  cases h with
  | idle hpop => exact absurd hu List.not_mem_nil
  | known hpop => exact absurd hu List.not_mem_nil
  | arrive hpop hp hos hnew h =>
    obtain ⟨v, -, o, ho, i, -, rfl⟩ := exists_of_mem_agenda_delta hu
    rintro _ ⟨⟩
    exact (hos.diff _).lt o ho
  | @enter m queue hpop h =>
    cases hM : t.method? m with
    | some M =>
      rw [agenda_method hM] at hu
      obtain ⟨i, -, hu⟩ := List.mem_flatMap.mp hu
      exact object_lt_of_mem_turnsOf hs hu
    | none =>
      rw [agenda_method_of_eq_none hM] at hu
      exact absurd hu List.not_mem_nil

end Opens

/-! ## Who has a turn -/

theorem mem_agenda_delta {v : Var} {i : Instr} (hp : s.flow.key? p = some (.var v))
    (ho : o ∈ os.diff (s.flow.pts p))
    (hi : i ∈ s.waitingAt v) : ⟨i, some o⟩ ∈ s.agenda t (.delta p os) := by
  rw [agenda_delta_var hp]
  exact List.mem_flatMap.mpr ⟨o, ho, List.mem_map.mpr ⟨i, hi, rfl⟩⟩

theorem object_of_mem_agenda_delta {u : Turn} (hu : u ∈ s.agenda t (.delta p os)) :
    u.object ≠ none := by
  obtain ⟨v, -, o, -, i, -, rfl⟩ := exists_of_mem_agenda_delta hu
  exact Option.some_ne_none o

theorem instr_of_mem_turnsOf {u : Turn} {i : Instr} (hu : u ∈ s.turnsOf i) : u.instr = i := by
  rcases List.mem_cons.mp hu with rfl | hu
  · rfl
  · obtain ⟨o, -, rfl⟩ := List.mem_map.mp hu
    rfl

theorem mem_agenda_method {M : Method} {u : Turn} (hM : t.method? m = some M) :
    u ∈ s.agenda t (.method m) ↔ ∃ i ∈ M.instrs, u ∈ s.turnsOf i := by
  rw [agenda_method hM]
  exact List.mem_flatMap

/-- After it was opened, a step changes neither what arrived nor what was entered. -/
theorem keeps_step (hs : s.Coherent t m₀) : Keeps t m₀ (s.opened t) (s.step t) := by
  have hopens := opens_opened hs
  rw [step_eq_turns hs]
  exact turns_induction (p := Keeps t m₀ (s.opened t))
    (fun _ h _ hu => keeps_turn h (hopens.object_lt hs hu))
    (.refl (hopens.coherent hs))

theorem Coherent.step (hs : s.Coherent t m₀) : (s.step t).Coherent t m₀ := (keeps_step hs).coherent

end Solver

end PointsTo
