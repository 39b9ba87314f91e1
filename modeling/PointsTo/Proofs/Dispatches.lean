import PointsTo.Proofs.Reports
import PointsTo.Proofs.Solver.Ledger

/-!
# Calls and their targets

In the result of an analysis every call of a reachable method has looked for its target exactly once
for each object at its receiver, and a static call exactly once. Where there was no target there is
a diagnostic with the reason, and everywhere else a call edge; there are no other diagnostics and
call edges (`Result.Accounts`). What the target is does not depend on the moment at which it is
asked for, whatever the memory of the program.

No statement may stand twice in the bodies of methods. In a program that was read from a description
none does.
-/

namespace PointsTo

/-- What comes of the entries of a list, where something does, in the order of what is said about
all of them. -/
theorem filterMap_sublist_map {α β : Type} {f : α → β} {g : α → Option β}
    (h : ∀ a b, g a = some b → b = f a)
    (l : List α) : (l.filterMap g).Sublist (l.map f) := by
  induction l with
  | nil => exact .slnil
  | cons a l ih =>
    rw [List.map_cons]
    cases ha : g a with
    | none =>
      rw [List.filterMap_cons_none ha]
      exact ih.cons _
    | some b =>
      rw [List.filterMap_cons_some ha, h a b ha]
      exact ih.cons_cons _

/-! ## Bodies in which no statement stands twice -/

namespace Method

variable {m : Method}

/-- The statements that were added have different numbers. -/
structure Numbered (m : Method) : Prop where
  serial_lt : ∀ s ∈ m.body, s.id.serial < m.added
  nodup : m.body.Nodup

theorem Added.numbered (h : m.Added) : m.Numbered := by
  induction h with
  | decl h =>
    obtain ⟨receiver, vars, formals, -, -, -, rfl⟩ := ofDecl_eq h
    exact ⟨fun _ hs => absurd hs List.not_mem_nil, List.nodup_nil⟩
  | newVar _ hok ih =>
    obtain ⟨vars, rfl⟩ := newVar_eq hok
    exact ⟨ih.serial_lt, ih.nodup⟩
  | @add m _ op ih =>
    constructor
    · refine List.forall_mem_append.mpr
        ⟨fun s hs => ?_, List.forall_mem_singleton.mpr (Nat.lt_succ_self _)⟩
      exact Nat.lt_succ_of_lt (ih.serial_lt s hs)
    · refine List.nodup_append.mpr ⟨ih.nodup, List.nodup_singleton _, ?_⟩
      rintro s hs _ hs' rfl
      rw [List.mem_singleton.mp hs'] at hs
      exact Nat.lt_irrefl _ (ih.serial_lt _ hs)

end Method

namespace Result

/-- The type of an object. -/
def typeOf? (r : Result) (o : Nat) : Option Ty := (r.heap[o]?).map Site.type

/-- The statement is a call of a reachable method that has to find its target for the object: for
none if the call is static, otherwise for those at its receiver. -/
def Calls (t : ClassTable) (r : Result) (st : Stmt) (call : Call) (object : Option Nat) : Prop :=
  st.op = .call call ∧ (∃ m ∈ r.calls.reachable, ∃ M, t.method? m = some M ∧ st ∈ M.body) ∧
    if call.kind = .static then object = none
    else ∃ v o, call.recv = some v ∧ object = some o ∧ o ∈ r.pointsTo (.var v)

end Result

/-- The target of a call on a receiver of a type. -/
def Program.resolve (p : Program) (call : Call) (type : Option Ty) : Target :=
  (p.hierarchy.ask fun t => call.target t type).1

/-- The log of calls that looked for their targets, the diagnostics and the call edges are what they
should be. -/
structure Result.Accounts (p : Program) (log : List Dispatch) (r : Result) : Prop where
  /-- No call looks for its target twice for the same object. -/
  nodup : (log.map fun d => (d.site.stmt, d.object)).Nodup
  mem_iff : ∀ st object,
    (st, object) ∈ log.map (fun d => (d.site.stmt, d.object)) ↔
      ∃ call, r.Calls p.table st call object
  diagnostics_nodup : (r.diagnostics.toList.map fun x => (x.site, x.object)).Nodup
  diagnostic_iff : ∀ st object e, ⟨st, object, e⟩ ∈ r.diagnostics ↔
    ∃ call, r.Calls p.table st call object ∧ p.resolve call (object.bind r.typeOf?) = .ok (.error e)
  edge_iff : ∀ st m kind, ⟨st, m, kind⟩ ∈ r.calls.edges ↔
    ∃ call object, r.Calls p.table st call object ∧
      p.resolve call (object.bind r.typeOf?) = .ok (.ok m) ∧
      kind = call.kind.dispatched
  /-- The search for a target has an outcome. -/
  resolves : ∀ st call object, r.Calls p.table st call object →
    ∃ x, p.resolve call (object.bind r.typeOf?) = .ok x

namespace Solver

variable {t : ClassTable} {m₀ : Memo} {s : Solver} {u : Turn} {d : Dispatch}

theorem diagnostics_start (memo : Memo) (entries : List MethodId) :
    (start memo entries).diagnostics = #[] := by
  obtain ⟨calls, queue, heq⟩ := exists_start_eq memo entries
  rw [heq]

theorem Initial.books (h : s.Initial m₀) (hdiagnostics : s.diagnostics = #[]) :
    Books t m₀ [] s where
  diagnostics := by rw [hdiagnostics]; rfl
  edge := by simp [h.edges]
  answered _ hd := absurd hd List.not_mem_nil
  object_lt _ hd := absurd hd List.not_mem_nil

theorem Initial.served (h : s.Initial m₀) : Served t [] s := by
  have hmade : ∀ c, ¬ s.Made t c := fun _ ⟨_, hm, _⟩ => hm.2 (h.queued ▸ hm.1)
  refine ⟨List.nodup_nil, fun d => iff_of_false List.not_mem_nil fun hd => hmade _ hd.1,
    fun c => ?_, ?_⟩
  · rw [h.waiting]
    exact iff_of_false List.not_mem_nil fun hc => hmade c hc.2.2
  · rw [h.waiting]
    exact List.nodup_nil

/-- A call looks for its target when it has its turn. -/
theorem turn_of_dispatch? (hf : s.fault = none) (hd : u.dispatch? = some d) :
    s.turn t u = s.dispatch t d.site d.object := by
  obtain ⟨i, object⟩ := u
  have hno : ¬ s.fault.isSome := by rw [hf]; exact Bool.false_ne_true
  cases i with
  | call c =>
    cases object with
    | some o =>
      obtain rfl := Option.some.inj hd
      exact if_neg hno
    | none =>
      unfold Turn.dispatch? at hd
      dsimp only at hd
      split_ifs at hd with hstatic
      obtain rfl := Option.some.inj hd
      have hwaits : (Instr.call c).waitsAt? = none := if_pos hstatic
      show s.prepare t (.call c) = _
      unfold prepare
      rw [hwaits]
      dsimp only
      unfold perform
      rw [if_neg hno]
      exact if_pos hstatic
  | _ => cases object <;> exact nomatch hd

/-- A call without a target adds a diagnostic, and nothing to the graphs and to the work. -/
theorem dispatch_of_error {c : Invocation} {recv : Option Nat} {e : ResolutionError}
    (h : Memo.answer (c.call.target t (recv.bind s.typeOf?)) s.memo = .ok (.error e)) :
    (s.dispatch t c recv).calls = s.calls ∧ (s.dispatch t c recv).flow = s.flow ∧
      (s.dispatch t c recv).queue = s.queue := by
  have htarget : (s.ask (c.call.target t (recv.bind s.typeOf?))).1 = .ok (.error e) := h
  unfold dispatch
  dsimp only
  rw [htarget]
  unfold unresolved
  dsimp only
  split_ifs <;> exact ⟨rfl, rfl, rfl⟩

/-! ### The log by statements -/

section Log

variable {log : List Dispatch} {d' : Dispatch}

theorem Served.instr?_of_mem (h : Served t log s) (hd : d ∈ log) :
    d.site.stmt.instr? = some (.call d.site) := by
  obtain ⟨m, -, M, -, hc⟩ := ((h.mem_iff d).mp hd).1
  exact (Method.stmt_of_mem_invocations hc).2

/-- A statement is one call only. -/
theorem Served.site_eq (h : Served t log s) (hd : d ∈ log) (hd' : d' ∈ log)
    (heq : d.site.stmt = d'.site.stmt) :
    d.site = d'.site :=
  Instr.call.inj (Option.some.inj ((h.instr?_of_mem hd).symm.trans (heq ▸ h.instr?_of_mem hd')))

theorem Served.nodup_keys (h : Served t log s) :
    (log.map fun d => (d.site.stmt, d.object)).Nodup := by
  refine h.nodup.map_on fun d hd d' hd' heq => ?_
  obtain ⟨hstmt, hobject⟩ := Prod.mk.inj heq
  obtain ⟨site, object⟩ := d
  obtain rfl : site = d'.site := h.site_eq hd hd' hstmt
  obtain rfl : object = d'.object := hobject
  rfl

theorem Books.nodup_diagnostics (h : Books t m₀ log s)
    (hkeys : (log.map fun d => (d.site.stmt, d.object)).Nodup) :
    (s.diagnostics.toList.map fun x => (x.site, x.object)).Nodup := by
  rw [h.diagnostics, List.map_filterMap]
  refine hkeys.sublist (filterMap_sublist_map (fun d x hx => ?_) log)
  obtain ⟨x', hx', rfl⟩ := Option.map_eq_some_iff.mp hx
  obtain ⟨e, -, rfl⟩ := Dispatch.failure?_eq_some.mp hx'
  rfl

theorem Books.mem_diagnostics_iff (h : Books t m₀ log s) {st : Stmt} {object : Option Nat}
    {e : ResolutionError} :
    ⟨st, object, e⟩ ∈ s.diagnostics ↔
      ∃ d ∈ log, d.target t m₀ s.heap = .ok (.error e) ∧ d.site.stmt = st ∧ d.object = object := by
  rw [← Array.mem_toList_iff, h.diagnostics, List.mem_filterMap]
  simp only [Dispatch.failure?_eq_some]
  constructor
  · rintro ⟨d, hd, e', he', heq⟩
    obtain ⟨rfl, rfl, rfl⟩ := Diagnostic.mk.inj heq
    exact ⟨d, hd, he', rfl, rfl⟩
  · rintro ⟨d, hd, he, rfl, rfl⟩
    exact ⟨d, hd, e, he, rfl⟩

theorem Books.mem_edges_iff (h : Books t m₀ log s) (hserved : Served t log s) {st : Stmt}
    {m : MethodId}
    {kind : CallKind} : ⟨st, m, kind⟩ ∈ s.calls.edges ↔
      ∃ d ∈ log, d.target t m₀ s.heap = .ok (.ok m) ∧ d.site.stmt = st ∧
        d.site.call.kind.dispatched = kind := by
  constructor
  · intro he
    obtain ⟨d, hd, hok, hst, hkind⟩ := h.edge _ he
    exact ⟨d, hd, hok, hst.symm, hkind.symm⟩
  · rintro ⟨d, hd, hok, rfl, rfl⟩
    rcases h.answered d hd with ⟨e, he⟩ | ⟨m', hm', ⟨site, callee, kind⟩, hedge, hst, hcallee⟩
    · exact nomatch hok.symm.trans he
    · -- the edge may come from another turn of the same call
      obtain ⟨d', hd', -, hst', hkind'⟩ := h.edge _ hedge
      have hm : m' = m := Except.ok.inj (Except.ok.inj (hm'.symm.trans hok))
      dsimp only at hst hcallee hst' hkind'
      rw [hserved.site_eq hd' hd (hst'.symm.trans hst)] at hkind'
      rw [hst, hcallee, hkind', hm] at hedge
      exact hedge

end Log

end Solver

namespace Program

open Description

variable {p : Program} {c : AnalysisConfig} {r : Result}

/-- The calls that have looked for their targets after a number of steps, in this order. -/
def dispatched (p : Program) (c : AnalysisConfig) (n : Nat) : List Dispatch :=
  (List.range n).flatMap fun k => (p.stateAfter c k).dispatches p.table

theorem dispatched_succ (p : Program) (c : AnalysisConfig) (n : Nat) :
    p.dispatched c (n + 1) = p.dispatched c n ++ (p.stateAfter c n).dispatches p.table := by
  unfold dispatched
  rw [List.range_succ, List.flatMap_append, List.flatMap_singleton]

/-- As long as there is no fault, the books are kept. -/
theorem books_stateAfter (hp : p.table.Declared) : ∀ {n : Nat}, (p.stateAfter c n).fault = none →
    Solver.Books p.table p.hierarchy.memo (p.dispatched c n) (p.stateAfter c n) := by
  intro n
  induction n with
  | zero => exact fun _ => (Solver.initial_start _ _).books (Solver.diagnostics_start ..)
  | succ n ih =>
    intro hf
    have hs := p.coherent_stateAfter c n
    rw [stateAfter_succ] at hf ⊢
    rw [dispatched_succ]
    exact (ih (Solver.fault_step hs hf)).step (fun _ _ hM => hp.id_eq hM) hs hf

/-- As long as there is no fault, every call is served that has to be. -/
theorem served_stateAfter (ht : p.table.Single) (hp : p.table.Declared) : ∀ {n : Nat},
    (p.stateAfter c n).fault = none → Solver.Served p.table (p.dispatched c n)
    (p.stateAfter c n) := by
  intro n
  induction n with
  | zero => exact fun _ => (Solver.initial_start _ _).served
  | succ n ih =>
    intro hf
    have hs := p.coherent_stateAfter c n
    rw [stateAfter_succ] at hf ⊢
    rw [dispatched_succ]
    exact (ih (Solver.fault_step hs hf)).step ht (fun _ _ hM => hp.id_eq hM) hs hf

/-- No statement of a program that can be analysed stands twice in the bodies if none does in one
body. -/
theorem single_of_violations (hp : p.table.Declared)
    (hbodies : ∀ id m, p.table.method? id = some m → m.body.Nodup)
    (hchecked : ∀ id m, p.table.method? id = some m →
      ∀ st ∈ m.body, m.checkStmt p.table st = .ok ()) :
    p.table.Single where
  nodup hm := hbodies _ _ hm
  parent hm st hst := (Method.parent_of_checkStmt (hchecked _ _ hm st hst)).trans (hp.id_eq hm)

/-- The calls that a state has made, read as the calls of a result. -/
theorem exists_calls_iff {s : Solver} {object : Option Nat} {st : Stmt} {call : Call}
    (hflow : s.flow.WellFormed)
    (hentered : ∀ m, s.Entered m ↔ m ∈ s.calls.reachable)
    (hchecked : ∀ id m, p.table.method? id = some m →
      ∀ st ∈ m.body, m.checkStmt p.table st = .ok ()) :
    (Result.ofSolver s).Calls p.table st call object ↔
      ∃ site : Invocation, site.stmt = st ∧ site.call = call ∧ s.Made p.table site ∧
        s.Meets ⟨site, object⟩ := by
  unfold Result.Calls Solver.Made Solver.Meets
  simp only [hentered, Solver.mem_pointsTo_iff hflow]
  constructor
  · rintro ⟨hop, ⟨m, hm, M, hM, hst⟩, hmeets⟩
    obtain ⟨i, hi⟩ := Method.instr?_of_checkStmt (hchecked m M hM st hst)
    obtain ⟨args, hargs⟩ := Stmt.exists_instr?_eq_call hop hi
    refine ⟨⟨st, call, args⟩, rfl, rfl, ⟨m, hm, M, hM, ?_⟩, hmeets⟩
    exact Method.mem_invocations.mpr (List.mem_filterMap.mpr ⟨st, hst, hargs⟩)
  · rintro ⟨site, rfl, rfl, ⟨m, hm, M, hM, hc⟩, hmeets⟩
    obtain ⟨hst, hi⟩ := Method.stmt_of_mem_invocations hc
    exact ⟨(Stmt.of_instr?_call hi).2.1, ⟨m, hm, M, hM, hst⟩, hmeets⟩

/-- A log that accounts for a state without work left accounts for the result. -/
theorem accounts_ofSolver {s : Solver} {log : List Dispatch}
    (hs : s.Coherent p.table p.hierarchy.memo)
    (hwork : s.queue.toList = [])
    (hchecked : ∀ id m, p.table.method? id = some m →
      ∀ st ∈ m.body, m.checkStmt p.table st = .ok ())
    (hbooks : Solver.Books p.table p.hierarchy.memo log s) (hserved : Solver.Served p.table log s) :
    (Result.ofSolver s).Accounts p log := by
  have hentered : ∀ m, s.Entered m ↔ m ∈ s.calls.reachable := by
    intro m
    unfold Solver.Entered Solver.queued
    rw [hwork]
    exact and_iff_left List.not_mem_nil
  have hcalls : ∀ {object st call}, (Result.ofSolver s).Calls p.table st call object ↔
      ∃ site : Invocation, site.stmt = st ∧ site.call = call ∧ ⟨site, object⟩ ∈ log := by
    intro object st call
    simp only [exists_calls_iff hs.flow hentered hchecked, hserved.mem_iff]
  refine ⟨hserved.nodup_keys, fun st object => ?_, hbooks.nodup_diagnostics hserved.nodup_keys,
    fun st object e => hbooks.mem_diagnostics_iff.trans ?_,
    fun st m kind => (hbooks.mem_edges_iff hserved).trans ?_, fun st call object h => ?_⟩
  · simp only [List.mem_map, hcalls]
    constructor
    · rintro ⟨d, hd, heq⟩
      obtain ⟨rfl, rfl⟩ := Prod.mk.inj heq
      exact ⟨d.site.call, d.site, rfl, rfl, hd⟩
    · rintro ⟨call, site, rfl, rfl, hd⟩
      exact ⟨_, hd, rfl⟩
  · simp only [hcalls]
    constructor
    · rintro ⟨d, hd, he, rfl, rfl⟩
      exact ⟨d.site.call, ⟨d.site, rfl, rfl, hd⟩, he⟩
    · rintro ⟨call, ⟨site, rfl, rfl, hd⟩, he⟩
      exact ⟨_, hd, he, rfl, rfl⟩
  · simp only [hcalls]
    constructor
    · rintro ⟨d, hd, hok, rfl, rfl⟩
      exact ⟨d.site.call, d.object, ⟨d.site, rfl, rfl, hd⟩, hok, rfl⟩
    · rintro ⟨call, object, ⟨site, rfl, rfl, hd⟩, hok, rfl⟩
      exact ⟨_, hd, hok, rfl, rfl⟩
  · obtain ⟨site, rfl, rfl, hd⟩ := hcalls.mp h
    rcases hbooks.answered _ hd with ⟨e, he⟩ | ⟨m, hm, -⟩
    · exact ⟨_, he⟩
    · exact ⟨_, hm⟩

/-- The result of a run is the state after all its steps, with the books kept. -/
theorem exists_books_of_analyze (hp : p.table.Declared) (hr : (p.analyze c).outcome = .ok r) :
    ∃ s, r = .ofSolver s ∧ s = p.stateAfter c r.steps ∧ s.fault = none ∧ s.queue.toList = [] ∧
      Solver.Books p.table p.hierarchy.memo (p.dispatched c r.steps) s := by
  obtain ⟨hvalid, s, hsolve, rfl⟩ := of_analyze_eq_ok hr
  obtain ⟨hfault, hwork⟩ := solve_finished hsolve
  have hstate : s = p.stateAfter c s.steps := by
    refine solver_eq_stateAfter ?_
    rw [analyze_eq, if_pos (List.isEmpty_iff.mpr hvalid), hsolve]
  have hbooks := books_stateAfter hp (hstate ▸ hfault)
  rw [← hstate] at hbooks
  exact ⟨s, rfl, hstate, hfault, hwork, hbooks⟩

theorem accounts_of_analyze (hp : p.table.Declared)
    (hbodies : ∀ id m, p.table.method? id = some m → m.body.Nodup)
    (hr : (p.analyze c).outcome = .ok r) :
    r.Accounts p (p.dispatched c r.steps) := by
  have hchecked := (of_violations_eq_nil (of_analyze_eq_ok hr).1).2
  obtain ⟨s, rfl, hstate, hfault, hwork, hbooks⟩ := exists_books_of_analyze hp hr
  have hs := p.coherent_stateAfter c (Result.ofSolver s).steps
  have hserved := served_stateAfter (single_of_violations hp hbodies hchecked) hp (hstate ▸ hfault)
  rw [← hstate] at hs hserved
  exact accounts_ofSolver hs hwork hchecked hbooks hserved

/-- Every call of a reachable method looks for its target exactly once for each object that it has
to, the diagnostics are exactly the failures, and the call edges are exactly the successes. The log
is that of the turns of which the steps consist. Whenever the target of a call is asked for during
the run, the answer is the one before the run. A call that finds no target when it has its turn
changes neither the call graph nor the flow graph nor the work that is to be done. Programs that
were read from descriptions have no statement twice in a body. -/
theorem analyze_dispatches (hp : p.table.Declared)
    (hbodies : ∀ id m, p.table.method? id = some m → m.body.Nodup)
    (hr : (p.analyze c).outcome = .ok r) :
    r.Accounts p (p.dispatched c r.steps) ∧
    (∀ k, p.stateAfter c (k + 1) = ((p.stateAfter c k).turns p.table).foldl (Solver.turn p.table)
      ((p.stateAfter c k).opened p.table)) ∧
    (∀ k call type, Memo.answer (Call.target p.table call type) (p.stateAfter c k).memo =
      p.resolve call type) ∧
    (∀ (s : Solver) (u : Turn) (d : Dispatch), s.fault = none → u.dispatch? = some d →
      s.turn p.table u = s.dispatch p.table d.site d.object ∧
      ∀ e, Memo.answer (d.site.call.target p.table (d.object.bind s.typeOf?)) s.memo =
          .ok (.error e) →
        (s.turn p.table u).calls = s.calls ∧ (s.turn p.table u).flow = s.flow ∧
          (s.turn p.table u).queue = s.queue) ∧
    ∀ (d : Description) q, d.build = .ok q →
      q.table.Declared ∧ ∀ id m, q.table.method? id = some m → m.body.Nodup := by
  refine ⟨accounts_of_analyze hp hbodies hr,
    fun k => ?_, fun k call type => ?_, fun s u d hf hd => ?_,
    fun d q hq => ?_⟩
  · rw [stateAfter_succ]
    exact Solver.step_eq_turns (p.coherent_stateAfter c k)
  · exact (call.target_settled p.table type _ _ (p.coherent_stateAfter c k).memo).1
  · have hturn : s.turn p.table u = _ := Solver.turn_of_dispatch? hf hd
    rw [hturn]
    exact ⟨rfl, fun e he => Solver.dispatch_of_error he⟩
  · have hloaded := (d.build_loaded q hq).1
    exact ⟨hloaded.declared, fun id m hm => (hloaded.methods id m hm).added.numbered.nodup⟩

/-- A variable holds a bell, which can ring, and a stone, which cannot. There is nothing that stops
them. -/
def bells : Description where
  entries := ["<Main: void main()>"]
  classes := [
    ⟨"Bell", "", [], false, false, [], [⟨"void ring()", [], false, false, false, [], []⟩]⟩,
    ⟨"Stone", "", [], false, false, [], []⟩,
    ⟨"Main", "", [], false, false, [],
      [⟨"void main()", [], true, false, false, [("x", "java.lang.Object")], [
        { blank with op := "new", lhs := "x", type := "Bell" },
        { blank with op := "new", lhs := "x", type := "Stone" },
        { blank with op := "invoke", recv := "x", method := "<Bell: void ring()>" },
        { blank with op := "invoke", kind := "static", method := "<Main: void stop()>" }]⟩]⟩]

/-- The program that `bells` describes. -/
def bellsProgram : Program := bells.build.toOption.getD {}

theorem build_bells : bells.build = .ok bellsProgram := eq_ok_of_isSome (by decide +kernel) {}

/-- The result of its analysis. -/
def bellsResult : Result :=
  (bellsProgram.analyze {}).outcome.toOption.getD (.ofSolver (.start {} []))

theorem analyze_bells : (bellsProgram.analyze {}).outcome = .ok bellsResult :=
  eq_ok_of_isSome (by decide +kernel) _

theorem dispatches_bells :
    bellsResult.Accounts bellsProgram (bellsProgram.dispatched {} bellsResult.steps) ∧
    (bellsProgram.dispatched {} bellsResult.steps).map
    (fun d => (d.site.stmt.id.serial, d.object)) =
      [(3, none), (2, some 0), (2, some 1)] ∧
    bellsResult.diagnostics.toList.map (fun x => (x.site.id.serial, x.object)) =
      [(3, none), (2, some 1)] ∧
    bellsResult.calls.edges.map (fun e => (e.site.id.serial, e.callee)) =
      [(2, ⟨"Bell", "void ring()"⟩)] := by
  have hloaded := (bells.build_loaded _ build_bells).1
  have hbodies : ∀ id m, bellsProgram.table.method? id = some m → m.body.Nodup := fun id m hm =>
    (hloaded.methods id m hm).added.numbered.nodup
  exact ⟨(analyze_dispatches hloaded.declared hbodies analyze_bells).1, by decide +kernel⟩

end Program

end PointsTo
