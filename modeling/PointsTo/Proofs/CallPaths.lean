import PointsTo.Proofs.LeastSolution
import PointsTo.Proofs.Solver.Move

/-!
# Reachable methods, and code that cannot be reached

A method is reachable if and only if a path of calls leads to it from a method in which the analysis
begins, and what is found belongs to reachable methods (`Program.analyze_callPaths`). This depends
neither on how the program came about nor on what is remembered about the hierarchy. The invariant
is `Solver.Rooted`: the path to a method is there when the method becomes reachable, and objects
flow only into variables that reachable methods have, or take as receivers and parameters. A method
whose header was written by `addMethod` takes only variables of its own.

A method returns the variables that its return statements returned when they were added. If such a
statement is taken away, and its variable belongs to a method that is not reachable, there is a node
for it all the same (`Program.exists_pointer_strayVar`). Nothing can flow into it.
-/

namespace PointsTo

open Relation (ReflTransGen)

/-- A call in the body of a method may run another method. -/
def CallGraph.Calls (g : CallGraph Stmt MethodId) (t : ClassTable) (m m' : MethodId) : Prop :=
  ∃ M, t.method? m = some M ∧ ∃ e ∈ g.edges, e.site ∈ M.body ∧ e.callee = m'

theorem Stmt.site?_of_instr? {s : Stmt} {site : Site} (h : s.instr? = some (.new site)) :
    s.site? = some site := by
  obtain ⟨id, op⟩ := s
  unfold Stmt.instr? at h
  dsimp only at h
  split at h <;> simp at h
  subst h
  rfl

theorem Stmt.id_of_site? {s : Stmt} {site : Site} (h : s.site? = some site) : site.id = s.id := by
  obtain ⟨id, op⟩ := s
  unfold Stmt.site? at h
  split at h
  · exact (Option.some.inj h) ▸ rfl
  · exact nomatch h

namespace ClassTable

variable {t : ClassTable} {ms ms' : List MethodId} {i : Instr} {q : Pointer} {v : Var} {M : Method}

/-- The statement is one of the methods. -/
def Covers (t : ClassTable) (ms : List MethodId) (i : Instr) : Prop :=
  ∃ m ∈ ms, ∃ M, t.method? m = some M ∧ i ∈ M.instrs

/-- The method is in the table, where it is found under one of the identities or has one of them. -/
def Among (t : ClassTable) (ms : List MethodId) (M : Method) : Prop :=
  ∃ m, t.method? m = some M ∧ (m ∈ ms ∨ M.id ∈ ms)

/-- The variable belongs to one of the methods. -/
def Owns (t : ClassTable) (ms : List MethodId) (v : Var) : Prop :=
  ∃ M, t.Among ms M ∧ v.owner = M.id

/-- The variable is the receiver or a parameter of one of the methods. -/
def Takes (t : ClassTable) (ms : List MethodId) (v : Var) : Prop := ∃ M, t.Among ms M ∧ v ∈ M.inputs

/-- One of the methods returns the variable although none of its statements does so. -/
def Strays (t : ClassTable) (ms : List MethodId) (v : Var) : Prop :=
  ∃ M, t.Among ms M ∧ v ∈ M.returned ∧ ∀ s ∈ M.body, s.returned? ≠ some v

/-- If the pointer belongs to a variable, then one of the methods has or takes it. -/
def Feeds (t : ClassTable) (ms : List MethodId) : Pointer → Prop
  | .var v => t.Owns ms v ∨ t.Takes ms v
  | _ => True

/-- If the pointer belongs to a variable, then one of the methods has, takes or returns it. -/
def Uses (t : ClassTable) (ms : List MethodId) : Pointer → Prop
  | .var v => (t.Owns ms v ∨ t.Takes ms v) ∨ ∃ M, t.Among ms M ∧ v ∈ M.returned
  | _ => True

theorem Covers.mono (hms : ms ⊆ ms') (h : t.Covers ms i) : t.Covers ms' i := by
  obtain ⟨m, hm, M, hM, hi⟩ := h
  exact ⟨m, hms hm, M, hM, hi⟩

theorem Among.mono (hms : ms ⊆ ms') (h : t.Among ms M) : t.Among ms' M := by
  obtain ⟨m, hm, hmem⟩ := h
  exact ⟨m, hm, hmem.imp (@hms _) (@hms _)⟩

theorem Feeds.mono (hms : ms ⊆ ms') (h : t.Feeds ms q) : t.Feeds ms' q := by
  cases q with
  | var v =>
    exact h.imp (fun ⟨M, hM, howner⟩ => ⟨M, hM.mono hms, howner⟩)
      fun ⟨M, hM, hv⟩ => ⟨M, hM.mono hms, hv⟩
  | _ => trivial

theorem Uses.mono (hms : ms ⊆ ms') (h : t.Uses ms q) : t.Uses ms' q := by
  cases q with
  | var v =>
    exact h.imp (Feeds.mono (q := .var v) hms) fun ⟨M, hM, hv⟩ => ⟨M, hM.mono hms, hv⟩
  | _ => trivial

theorem Feeds.uses (h : t.Feeds ms q) : t.Uses ms q := by
  cases q with
  | var v => exact Or.inl h
  | _ => trivial

theorem Among.mem_id (ht : t.Declared) (h : t.Among ms M) : M.id ∈ ms := by
  obtain ⟨m, hm, hmem | hmem⟩ := h
  · exact (ht.id_eq hm).symm ▸ hmem
  · exact hmem

/-- Methods that were declared take only variables of their own. -/
theorem Declared.owner_mem (ht : t.Declared) (h : t.Owns ms v ∨ t.Takes ms v) : v.owner ∈ ms := by
  rcases h with ⟨M, hM, howner⟩ | ⟨M, hM, hv⟩
  · exact howner ▸ hM.mem_id ht
  · obtain ⟨m, hm, -⟩ := id hM
    obtain ⟨hreceiver, hformals⟩ := ht.owner_eq hm
    have howner : v.owner = m := (List.mem_append.mp hv).elim
      (fun hv => hreceiver v (Option.mem_toList.mp hv)) (hformals v)
    rw [howner, ← ht.id_eq hm]
    exact hM.mem_id ht

end ClassTable

theorem Pointer.Of.feeds {t : ClassTable} {ms : List MethodId} {vs : List Var} {q : Pointer}
    (h : q.Of vs) (hvs : ∀ v ∈ vs, t.Owns ms v ∨ t.Takes ms v) : t.Feeds ms q := by
  cases q with
  | var v => exact hvs v h
  | _ => trivial

namespace Solver

variable {t : ClassTable} {roots : List MethodId} {s s' : Solver}
  {ps ts : Pointer → Prop} {w : Work}

/-! ## The invariant -/

/-- The node is there, and objects may flow into it. -/
def Filled (t : ClassTable) (s : Solver) (j : Nat) : Prop :=
  ∃ q, s.flow.key? j = some q ∧ t.Feeds s.calls.reachable q

/-- The work may be done: its node may be filled, or its method is reachable. -/
def Admits (t : ClassTable) (s : Solver) : Work → Prop
  | .delta j _ => s.Filled t j
  | .method m => m ∈ s.calls.reachable

/-- What there is comes from methods to which a path of calls leads. -/
structure Rooted (t : ClassTable) (roots : List MethodId) (s : Solver) : Prop where
  inBounds : s.queue.InBounds
  root : ∀ m ∈ roots, m ∈ s.calls.reachable
  path : ∀ m ∈ s.calls.reachable, ∃ r ∈ roots, ReflTransGen (s.calls.Calls t) r m
  indexed : s.calls.Indexed
  callee : ∀ e ∈ s.calls.edges, e.callee ∈ s.calls.reachable
  site : ∀ e ∈ s.calls.edges, ∃ m ∈ s.calls.reachable, ∃ M, t.method? m = some M ∧ e.site ∈ M.body
  waiting : ∀ i ∈ s.waiting, t.Covers s.calls.reachable i
  heap : ∀ site ∈ s.heap, t.Covers s.calls.reachable (.new site)
  node : ∀ {j q}, s.flow.key? j = some q → t.Uses s.calls.reachable q
  edge : ∀ {n e}, e ∈ s.flow.out n → s.Filled t e.target
  pts : ∀ {j}, s.flow.pts j ≠ {} → s.Filled t j
  work : ∀ w ∈ s.queue.toList, s.Admits t w

theorem Filled.mono (hkey : ∀ {j q}, s.flow.key? j = some q → s'.flow.key? j = some q)
    (hreach : s.calls.reachable ⊆ s'.calls.reachable) {j : Nat} (h : s.Filled t j) :
    s'.Filled t j := by
  obtain ⟨q, hq, hfeeds⟩ := h
  exact ⟨q, hkey hq, hfeeds.mono hreach⟩

theorem Admits.mono (hkey : ∀ {j q}, s.flow.key? j = some q → s'.flow.key? j = some q)
    (hreach : s.calls.reachable ⊆ s'.calls.reachable) (h : s.Admits t w) : s'.Admits t w := by
  cases w with
  | delta j os => exact Filled.mono hkey hreach h
  | method m => exact hreach h

theorem Draws.admits (hd : Draws ps ts s s') (h : s.Admits t w) : s'.Admits t w :=
  h.mono hd.flow.key (by rw [hd.calls]; exact List.Subset.refl _)

namespace Rooted

/-- Drawing keeps the invariant if the nodes belong to variables that are in use and the edges lead
to variables into which objects may flow. -/
theorem draws (h : s.Rooted t roots) (hd : Draws ps ts s s')
    (hps : ∀ q, ps q → t.Uses s.calls.reachable q) (hts : ∀ q, ts q → t.Feeds s.calls.reachable q) :
    s'.Rooted t roots := by
  have hfilled : ∀ {j}, s.Filled t j → s'.Filled t j :=
    Filled.mono hd.flow.key (by rw [hd.calls]; exact List.Subset.refl _)
  have hnamed : ∀ {j}, (∃ q, s'.flow.key? j = some q ∧ ts q) → s'.Filled t j := by
    rintro j ⟨q, hq, htsq⟩
    exact ⟨q, hq, hd.calls ▸ hts q htsq⟩
  have hedge : ∀ {n e}, e ∈ s'.flow.out n → s'.Filled t e.target := fun he =>
    (hd.flow.edge he).elim (fun he => hfilled (h.edge he)) hnamed
  obtain ⟨ds, hqueue, hsink⟩ := hd.work
  refine ⟨?_, ?_, ?_, ?_, ?_, ?_, ?_, ?_, ?_, hedge, ?_, ?_⟩
  · rw [hqueue]
    exact h.inBounds.pushAll _
  · rw [hd.calls]
    exact h.root
  · rw [hd.calls]
    exact h.path
  · rw [hd.calls]
    exact h.indexed
  · rw [hd.calls]
    exact h.callee
  · rw [hd.calls]
    exact h.site
  · rw [hd.calls, hd.waiting]
    exact h.waiting
  · rw [hd.calls, hd.heap]
    exact h.heap
  · intro j q hq
    rw [hd.calls]
    exact (hd.flow.fresh hq).elim h.node (hps q)
  · intro j hj
    rw [hd.flow.pts] at hj
    exact hfilled (h.pts hj)
  · intro w hw
    rw [hqueue, Queue.toList_pushAll h.inBounds] at hw
    rcases List.mem_append.mp hw with hw | hw
    · exact hd.admits (h.work w hw)
    · obtain ⟨d, hdmem, rfl⟩ := List.mem_map.mp hw
      rcases hsink d hdmem with ⟨n, e, he, heq⟩ | hnew
      · exact heq ▸ hedge he
      · exact hnamed hnew

/-- An edge from a reachable method keeps the invariant if its callee becomes reachable. -/
theorem addEdge (h : s.Rooted t roots) {m : MethodId} {M : Method} {e : CallEdge Stmt MethodId}
    (hm : m ∈ s.calls.reachable) (hM : t.method? m = some M) (he : e.site ∈ M.body)
    (hedges : s'.calls.edges = s.calls.edges ++ [e]) (hindexed : s'.calls.Indexed)
    (hreach : ∀ x, x ∈ s'.calls.reachable ↔ x ∈ s.calls.reachable ∨ x = e.callee)
    (hflow : s'.flow = s.flow) (hheap : s'.heap = s.heap) (hwaiting : s'.waiting = s.waiting)
    (hin : s'.queue.InBounds)
    (hwork : ∀ w ∈ s'.queue.toList, w ∈ s.queue.toList ∨ w = .method e.callee) :
    s'.Rooted t roots := by
  have hsub : s.calls.reachable ⊆ s'.calls.reachable := fun x hx => (hreach x).mpr (Or.inl hx)
  have hkey : ∀ {j q}, s.flow.key? j = some q → s'.flow.key? j = some q := fun hq => hflow ▸ hq
  have hcalls : ∀ x y, s.calls.Calls t x y → s'.calls.Calls t x y := by
    rintro x y ⟨X, hX, f, hf, hfX, rfl⟩
    exact ⟨X, hX, f, by rw [hedges]; exact List.mem_append_left _ hf, hfX, rfl⟩
  have hnew : s'.calls.Calls t m e.callee := ⟨M, hM, e, by rw [hedges]; simp, he, rfl⟩
  refine ⟨hin, fun x hx => hsub (h.root x hx), ?_, hindexed, ?_, ?_, ?_, ?_, ?_, ?_, ?_, ?_⟩
  · intro x hx
    rcases (hreach x).mp hx with hx | rfl
    · obtain ⟨r, hr, hpath⟩ := h.path x hx
      exact ⟨r, hr, ReflTransGen.mono hcalls _ _ hpath⟩
    · obtain ⟨r, hr, hpath⟩ := h.path m hm
      exact ⟨r, hr, (ReflTransGen.mono hcalls _ _ hpath).tail hnew⟩
  · rw [hedges]
    refine List.forall_mem_append.mpr ⟨fun f hf => hsub (h.callee f hf), ?_⟩
    exact List.forall_mem_singleton.mpr ((hreach _).mpr (Or.inr rfl))
  · rw [hedges]
    refine List.forall_mem_append.mpr ⟨fun f hf => ?_, ?_⟩
    · obtain ⟨x, hx, hX⟩ := h.site f hf
      exact ⟨x, hsub hx, hX⟩
    · exact List.forall_mem_singleton.mpr ⟨m, hsub hm, M, hM, he⟩
  · rw [hwaiting]
    exact fun i hi => (h.waiting i hi).mono hsub
  · rw [hheap]
    exact fun site hsite => (h.heap site hsite).mono hsub
  · rw [hflow]
    exact fun hq => (h.node hq).mono hsub
  · rw [hflow]
    exact fun hf => (h.edge hf).mono hkey hsub
  · rw [hflow]
    exact fun hj => (h.pts hj).mono hkey hsub
  · intro w hw
    rcases hwork w hw with hw | rfl
    · exact (h.work w hw).mono hkey hsub
    · exact (hreach _).mpr (Or.inr rfl)

/-- A call that is noted leads to a reachable method. -/
theorem noteCall (h : s.Rooted t roots) {c : Invocation} (hc : t.Covers s.calls.reachable (.call c))
    (callee : Method) : (s.noteCall c callee).Rooted t roots ∧
      callee.id ∈ (s.noteCall c callee).calls.reachable ∧
      s.calls.reachable ⊆ (s.noteCall c callee).calls.reachable := by
  obtain ⟨m, hm, M, hM, hi⟩ := hc
  obtain ⟨st, hst, hsi⟩ := List.mem_filterMap.mp hi
  obtain ⟨rfl, -, -⟩ := Stmt.of_instr?_call hsi
  by_cases hedge : (s.calls.edgeKind? c.stmt callee.id).isSome
  · rw [noteCall_of_isSome hedge]
    obtain ⟨e, he, -, hcallee⟩ := h.indexed.edgeKind?_isSome_iff.mp hedge
    exact ⟨h, hcallee ▸ h.callee e he, List.Subset.refl _⟩
  · rw [noteCall_of_not_isSome hedge]
    refine ⟨h.addEdge hm hM hst rfl ((h.indexed.withEdge hedge).congr rfl rfl rfl)
      (fun x => CallGraph.mem_ite_append) rfl rfl rfl (h.inBounds.pushAll _) fun w hw => ?_,
      CallGraph.mem_ite_append.mpr (Or.inr rfl),
      fun x hx => CallGraph.mem_ite_append.mpr (Or.inl hx)⟩
    dsimp only at hw
    rw [Queue.toList_pushAll h.inBounds] at hw
    refine (List.mem_append.mp hw).imp_right fun hw => ?_
    split_ifs at hw
    · exact absurd hw List.not_mem_nil
    · exact List.mem_singleton.mp hw

/-- Objects arrive at a node that may be filled. -/
theorem arrive (h : s.Rooted t roots) {n : Nat} (hn : s.Filled t n) (os : ObjSet)
    (facts : Array (Nat × Nat)) :
    { s with flow := s.flow.addPts n os, facts }.Rooted t roots := by
  have hkey : ∀ {j q}, s.flow.key? j = some q → (s.flow.addPts n os).key? j = some q :=
    fun hq => (FlowGraph.key?_addPts ..).trans hq
  have hfilled : ∀ {j}, s.Filled t j → Filled t { s with flow := s.flow.addPts n os, facts } j :=
    fun ⟨q, hq, hfeeds⟩ => ⟨q, hkey hq, hfeeds⟩
  refine { h with node := ?_, edge := ?_, pts := ?_, work := ?_ }
  · intro j q hq
    rw [FlowGraph.key?_addPts] at hq
    exact h.node hq
  · intro i e he
    rw [FlowGraph.out_addPts] at he
    exact hfilled (h.edge he)
  · intro j hj
    by_cases hjn : j = n
    · exact hjn ▸ hfilled hn
    · dsimp only at hj
      rw [FlowGraph.pts_addPts_of_ne hjn] at hj
      exact hfilled (h.pts hj)
  · exact fun w hw => (h.work w hw).mono hkey (List.Subset.refl _)

/-- An allocation of a reachable method. -/
theorem object (h : s.Rooted t roots) {site : Site}
    (hsite : t.Covers s.calls.reachable (.new site)) :
    (s.object site).2.Rooted t roots := by
  cases hf : s.heap.findIdx? fun x => x = site with
  | some o =>
    rw [object_of_findIdx? hf]
    exact h
  | none =>
    rw [object_of_findIdx?_eq_none hf]
    refine { h with heap := fun x hx => ?_ }
    rcases Array.mem_push.mp hx with hx | rfl
    · exact h.heap x hx
    · exact hsite

/-- A statement of a reachable method starts to wait. -/
theorem wait (h : s.Rooted t roots) {i : Instr} (hi : t.Covers s.calls.reachable i) :
    { s with waiting := s.waiting ++ [i] }.Rooted t roots :=
  { h with waiting := List.forall_mem_append.mpr ⟨h.waiting, List.forall_mem_singleton.mpr hi⟩ }

/-- A path of calls from a method in which the analysis begins leads to a reachable method. -/
theorem mem_reachable (h : s.Rooted t roots) {root m : MethodId} (hroot : root ∈ roots)
    (hpath : ReflTransGen (s.calls.Calls t) root m) : m ∈ s.calls.reachable := by
  induction hpath with
  | refl => exact h.root root hroot
  | tail _ hcall _ =>
    obtain ⟨M, hM, e, he, hsite, rfl⟩ := hcall
    exact h.callee e he

/-- Objects are allocated by statements of reachable methods. -/
theorem exists_site (h : s.Rooted t roots) {site : Site} (hsite : site ∈ s.heap) :
    ∃ m ∈ s.calls.reachable, ∃ M, t.method? m = some M ∧
      ∃ st ∈ M.body, st.site? = some site := by
  obtain ⟨m, hm, M, hM, hi⟩ := h.heap site hsite
  obtain ⟨st, hst, hnew⟩ := List.mem_filterMap.mp hi
  exact ⟨m, hm, M, hM, st, hst, Stmt.site?_of_instr? hnew⟩

/-- Nothing flows into a variable that no reachable method has or takes. -/
theorem pointsTo_eq_empty (h : s.Rooted t roots) {v : Var}
    (hv : ¬ t.Feeds s.calls.reachable (.var v)) :
    (Result.ofSolver s).pointsTo (.var v) = .empty := by
  unfold Result.pointsTo
  split
  · next j hj =>
    by_contra hpts
    obtain ⟨q, hq, hfeeds⟩ := h.pts hpts
    obtain rfl := Option.some.inj ((FlowGraph.key?_of_find? hj).symm.trans hq)
    exact hv hfeeds
  · rfl

end Rooted

/-! ## Every run keeps it -/

section Valid

variable (hvalid : ∀ id m, t.method? id = some m → ∀ s ∈ m.body, m.checkStmt t s = .ok ())

include hvalid

theorem owns_of_covers {ms : List MethodId} {i : Instr} (hi : t.Covers ms i) :
    ∀ v ∈ i.vars, t.Owns ms v := by
  obtain ⟨m, hm, M, hM, hmem⟩ := hi
  obtain ⟨st, hst, hsi⟩ := List.mem_filterMap.mp hmem
  intro v hv
  exact ⟨M, ⟨m, hM, Or.inl hm⟩, Method.owner_of_checkStmt (hvalid m M hM st hst) hsi v hv⟩

/-- What a statement of a reachable method does keeps the invariant. -/
theorem Rooted.act (h : s.Rooted t roots) {i : Instr} (hi : t.Covers s.calls.reachable i)
    (hact : Act t i s s') : s'.Rooted t roots ∧ ∀ w, s.Admits t w → s'.Admits t w := by
  have hvars := owns_of_covers hvalid hi
  cases hact with
  | draw hd =>
    have hfeeds : ∀ q : Pointer, q.Of i.vars → t.Feeds s.calls.reachable q := fun q hq =>
      hq.feeds fun v hv => Or.inl (hvars v hv)
    exact ⟨h.draws hd (fun q hq => (hfeeds q hq).uses) hfeeds, fun w => hd.admits⟩
  | @call _ c m callee hcall hm hd =>
    subst hcall
    obtain ⟨hnote, hcallee, hsub⟩ := h.noteCall hi callee
    obtain ⟨calls, queue, events, heq⟩ := s.noteCall_frame c callee
    have hkey : ∀ {j q}, s.flow.key? j = some q → (s.noteCall c callee).flow.key? j = some q := by
      rw [heq]
      exact id
    have hamong : t.Among (s.noteCall c callee).calls.reachable callee := ⟨m, hm, Or.inr hcallee⟩
    have hinputs : ∀ v ∈ (Instr.call c).vars ++ callee.inputs,
        t.Owns (s.noteCall c callee).calls.reachable v ∨
          t.Takes (s.noteCall c callee).calls.reachable v := by
      refine List.forall_mem_append.mpr ⟨fun v hv => Or.inl ?_,
        fun v hv => Or.inr ⟨callee, hamong, hv⟩⟩
      obtain ⟨M, hM, howner⟩ := hvars v hv
      exact ⟨M, hM.mono hsub, howner⟩
    refine ⟨hnote.draws hd (fun q hq => ?_) fun q hq => hq.feeds hinputs,
      fun w hw => hd.admits (hw.mono hkey hsub)⟩
    cases q with
    | var v =>
      rcases List.mem_append.mp hq with hv | hv
      · exact Or.inl (hinputs v hv)
      · exact Or.inr ⟨callee, hamong, hv⟩
    | _ => trivial
  | alloc hnew =>
    subst hnew
    obtain ⟨heap, heq⟩ := s.object_frame _
    refine ⟨h.object hi, fun w hw => hw.mono ?_ ?_⟩
    · rw [heq]
      exact id
    · rw [heq]
      exact List.Subset.refl _
  | wait => exact ⟨h.wait hi, fun w hw => hw.mono id (List.Subset.refl _)⟩

/-- What a piece of work does keeps the invariant. -/
theorem Rooted.move (h : s.Rooted t roots) (hw : s.Admits t w) (hmove : Move t w s s') :
    s'.Rooted t roots ∧ s'.Admits t w := by
  cases hmove with
  | arrive heq new =>
    subst heq
    obtain ⟨q, hq, hfeeds⟩ := hw
    exact ⟨h.arrive ⟨q, hq, hfeeds⟩ new _, q, (FlowGraph.key?_addPts ..).trans hq, hfeeds⟩
  | draw hd => exact ⟨h.draws hd (fun _ => False.elim) fun _ => False.elim, hd.admits hw⟩
  | @act _ i hi hact =>
    have hcovers : t.Covers s.calls.reachable i := by
      rcases hi with hi | ⟨m, M, rfl, hM, hi⟩
      · exact h.waiting _ hi
      · exact ⟨m, hw, M, hM, hi⟩
    obtain ⟨h', hadmits⟩ := h.act hvalid hcovers hact
    exact ⟨h', hadmits w hw⟩

theorem Rooted.moves (h : s.Rooted t roots) (hw : s.Admits t w) (hmoves : Moves t w s s') :
    s'.Rooted t roots ∧ s'.Admits t w := by
  induction hmoves with
  | refl => exact ⟨h, hw⟩
  | tail _ hmove ih => exact ih.1.move hvalid ih.2 hmove

theorem Rooted.step (h : s.Rooted t roots) : (s.step t).Rooted t roots := by
  rcases step_cases t s with ⟨-, heq⟩ | ⟨w, queue, hpop, hmoves⟩
  · rwa [heq]
  · have hlist := Queue.toList_of_pop? hpop
    have htaken : { s with queue, steps := s.steps + 1 }.Rooted t roots :=
      { h with
        inBounds := Queue.InBounds.of_pop? hpop
        work := fun w' hw' => h.work w' (hlist ▸ List.mem_cons_of_mem w hw') }
    exact (htaken.moves hvalid (h.work w (hlist ▸ List.mem_cons_self)) hmoves).1

/-- A node belongs to a variable that a reachable method has or takes, or to one that it returns
although none of its statements does so. -/
theorem Rooted.feeds_or_strays (h : s.Rooted t roots) {v : Var}
    (hv : (s.flow.find? (.var v)).isSome) :
    t.Feeds s.calls.reachable (.var v) ∨ t.Strays s.calls.reachable v := by
  obtain ⟨j, hj⟩ := Option.isSome_iff_exists.mp hv
  rcases h.node (FlowGraph.key?_of_find? hj) with hfeeds | ⟨M, ⟨m, hM, hmem⟩, hreturned⟩
  · exact Or.inl hfeeds
  · by_cases hst : ∃ st ∈ M.body, st.returned? = some v
    · obtain ⟨st, hst, hsome⟩ := hst
      have howner := Method.owner_of_returned? (hvalid m M hM st hst) hsome
      exact Or.inl (Or.inl ⟨M, ⟨m, hM, hmem⟩, howner⟩)
    · exact Or.inr ⟨M, ⟨m, hM, hmem⟩, hreturned, fun st hmem hsome => hst ⟨st, hmem, hsome⟩⟩

end Valid

theorem rooted_start (memo : Memo) (roots : List MethodId) : (start memo roots).Rooted t roots := by
  have hinit := initial_start memo roots
  refine ⟨hinit.inBounds, fun m => mem_reachable_start.mpr,
    fun m hm => ⟨m, mem_reachable_start.mp hm, .refl⟩, hinit.indexed, ?_, ?_, ?_, ?_, ?_, ?_, ?_,
    ?_⟩
  · simp [hinit.edges]
  · simp [hinit.edges]
  · simp [hinit.waiting]
  · simp [hinit.heap]
  · simp [hinit.flow, FlowGraph.key?, FlowGraph.empty]
  · simp [hinit.flow, FlowGraph.out, FlowGraph.empty]
  · simp [hinit.flow, FlowGraph.pts, FlowGraph.empty]
  · intro w hw
    rw [hinit.queue] at hw
    obtain ⟨m, hm, rfl⟩ := List.mem_map.mp hw
    exact hm

end Solver

/-- What a result has to do with the methods to which calls lead from some roots. -/
structure Result.Rooted (r : Result) (t : ClassTable) (roots : List MethodId) : Prop where
  /-- Exactly the methods to which paths of calls lead are reachable. -/
  reachable : ∀ m, m ∈ r.calls.reachable ↔ ∃ root ∈ roots, ReflTransGen (r.calls.Calls t) root m
  /-- Call sites are statements of reachable methods. -/
  site : ∀ e ∈ r.calls.edges, ∃ m ∈ r.calls.reachable, ∃ M, t.method? m = some M ∧ e.site ∈ M.body
  /-- Objects are allocated by statements of reachable methods. -/
  object : ∀ site ∈ r.heap, ∃ m ∈ r.calls.reachable, ∃ M, t.method? m = some M ∧
    ∃ s ∈ M.body, s.site? = some site
  /-- The variable of a pointer belongs to a reachable method or is an input of one. The one
  exception are variables that reachable methods return although none of their statements does so
  any more. -/
  pointer : ∀ v, (r.flow.find? (.var v)).isSome →
    t.Owns r.calls.reachable v ∨ t.Takes r.calls.reachable v ∨ t.Strays r.calls.reachable v
  /-- Nothing flows into a variable that is not of the first two kinds. -/
  empty : ∀ v, ¬ t.Owns r.calls.reachable v → ¬ t.Takes r.calls.reachable v →
    r.pointsTo (.var v) = .empty
  /-- In a table of declared methods, statements and variables say which method they belong to. -/
  declaredSite : t.Declared → ∀ e ∈ r.calls.edges, e.site.parent ∈ r.calls.reachable
  declaredObject : t.Declared → ∀ site ∈ r.heap, site.id.method ∈ r.calls.reachable
  declaredPointer : t.Declared → ∀ v, (r.flow.find? (.var v)).isSome →
    v.owner ∈ r.calls.reachable ∨ t.Strays r.calls.reachable v
  declaredEmpty : t.Declared → ∀ v, v.owner ∉ r.calls.reachable → r.pointsTo (.var v) = .empty

namespace Program

variable {p : Program} {c : AnalysisConfig} {r : Result}

theorem rooted_solve (hvalid : ({ p with entries := p.chosen c } : Program).violations = []) :
    (p.solve (p.roots c) c.limits).2.Rooted p.table (p.roots c) :=
  solve_induction (Solver.rooted_start _ _) fun _ _ h => h.step (of_violations_eq_nil hvalid).2

/-- Exactly the methods to which paths of calls lead are reachable, and everything that is found
belongs to them, in every program that is in order. -/
theorem analyze_callPaths (hr : (p.analyze c).outcome = .ok r) : r.Rooted p.table (p.roots c) := by
  obtain ⟨hvalid, s, hs, rfl⟩ := of_analyze_eq_ok hr
  have hchecked := (of_violations_eq_nil hvalid).2
  have hrooted : s.Rooted p.table (p.roots c) := by
    have hrun := rooted_solve hvalid
    rwa [hs] at hrun
  have hparent : ∀ {id m st}, p.table.Declared → p.table.method? id = some m → st ∈ m.body →
      st.parent = id := fun hp hm hst =>
    (Method.parent_of_checkStmt (hchecked _ _ hm _ hst)).trans (hp.id_eq hm)
  constructor
  case reachable =>
    refine fun m => ⟨hrooted.path m, ?_⟩
    rintro ⟨root, hroot, hpath⟩
    exact hrooted.mem_reachable hroot hpath
  case site => exact hrooted.site
  case object => exact fun site => hrooted.exists_site
  case pointer => exact fun v hv => or_assoc.mp (hrooted.feeds_or_strays hchecked hv)
  case empty => exact fun v howns htakes => hrooted.pointsTo_eq_empty (not_or_intro howns htakes)
  case declaredSite =>
    intro hp e he
    obtain ⟨m, hm, M, hM, hsite⟩ := hrooted.site e he
    exact (hparent hp hM hsite).symm ▸ hm
  case declaredObject =>
    intro hp site hsite
    obtain ⟨m, hm, M, hM, st, hst, hsome⟩ := hrooted.exists_site hsite
    rw [Stmt.id_of_site? hsome]
    show st.parent ∈ s.calls.reachable
    exact (hparent hp hM hst).symm ▸ hm
  case declaredPointer =>
    exact fun hp v hv => (hrooted.feeds_or_strays hchecked hv).imp_left hp.owner_mem
  case declaredEmpty => exact fun hp v hv => hrooted.pointsTo_eq_empty (mt hp.owner_mem hv)

/-! ### A returned variable of a method that is not reachable -/

/-- A parameter of a method that nothing calls. -/
def strayVar : Var :=
  { name := "p0", owner := ⟨"Main", "void g(Main)"⟩, type := some (.cls "Main") }

/-- The method that `strayVar` belongs to. -/
def strayOwner : Method where
  cls := "Main"
  sub := ⟨"g", [.cls "Main"], .prim .void⟩
  static := true
  abstract := false
  native := false
  formals := [strayVar]
  vars := (∅ : Std.TreeMap String Var).insert "p0" strayVar

/-- A method without statements, after one that returned `strayVar` was taken away. -/
def strayMethod : Method :=
  let m : Method := ⟨"Main", ⟨"f", [], .cls "Main"⟩, true, false, false, none, [], ∅, [], 0, []⟩
  { m.add (.ret (some strayVar)) with body := [] }

/-- A method that calls `strayMethod` and keeps the result. -/
def strayCaller : Method :=
  let r : Var := { name := "r", owner := ⟨"Main", "void main()"⟩, type := some (.cls "Main") }
  let m : Method := ⟨"Main", ⟨"main", [], .prim .void⟩, true, false, false, none, [],
    (∅ : Std.TreeMap String Var).insert "r" r, [], 0, []⟩
  m.add (.call { kind := .static, ref := strayMethod.ref, result := some r })

/-- The three methods before two of them get their bodies. -/
def strayHeaders : ClassTable :=
  ((ClassTable.initial.setMethod strayOwner).setMethod strayMethod.header).setMethod
    strayCaller.header

/-- The program that begins in `strayCaller`. -/
def strayProgram : Program where
  hierarchy := { table := (strayHeaders.setMethod strayMethod).setMethod strayCaller }
  entries := [some strayCaller.id]

/-- The result for `strayProgram`. -/
def strayResult : Result := (strayProgram.analyze {}).outcome.toOption.getD (.ofSolver {})

theorem analyze_stray : (strayProgram.analyze {}).outcome = .ok strayResult :=
  Description.eq_ok_of_isSome (by decide +kernel) _

theorem declared_stray : strayProgram.table.Declared := by
  have howner : ClassTable.initial.addMethod (.cls "Main")
        { sub := strayOwner.sub, static := true } =
      .ok (strayOwner, ClassTable.initial.setMethod strayOwner) := rfl
  have hmethod : (ClassTable.initial.setMethod strayOwner).addMethod (.cls "Main")
        { sub := strayMethod.sub, static := true } =
      .ok (strayMethod.header,
        (ClassTable.initial.setMethod strayOwner).setMethod strayMethod.header) := rfl
  have hcaller : ((ClassTable.initial.setMethod strayOwner).setMethod strayMethod.header).addMethod
        (.cls "Main") { sub := strayCaller.sub, static := true } =
      .ok (strayCaller.header, strayHeaders) := rfl
  have hheaders : strayHeaders.Declared :=
    ((ClassTable.Declared.initial.addMethod howner).addMethod hmethod).addMethod hcaller
  have hfind : strayHeaders.method? strayMethod.id = some strayMethod.header := rfl
  have hfind' : (strayHeaders.setMethod strayMethod).method? strayCaller.id =
      some strayCaller.header := rfl
  have hbody : (strayHeaders.setMethod strayMethod).Declared := hheaders.body hfind rfl
  exact hbody.body hfind' rfl

theorem callPaths_strayResult :
    (∀ m, m ∈ strayResult.calls.reachable ↔ ∃ root ∈ strayProgram.roots {},
      ReflTransGen (strayResult.calls.Calls strayProgram.table) root m) ∧
    strayResult.calls.reachable = [strayCaller.id, strayMethod.id] ∧
    strayVar.owner ∉ strayResult.calls.reachable ∧
      strayResult.pointsTo (.var strayVar) = .empty := by
  have hrooted := analyze_callPaths analyze_stray
  have hstray : strayVar.owner ∉ strayResult.calls.reachable := by decide +kernel
  exact ⟨hrooted.reachable, by decide +kernel, hstray,
    hrooted.declaredEmpty declared_stray strayVar hstray⟩

/-- There may be a pointer for a variable of a method that is not reachable. -/
theorem exists_pointer_strayVar : strayProgram.table.Declared ∧
    (strayProgram.analyze {}).outcome = .ok strayResult ∧
    (strayProgram.table.method? strayVar.owner).any
      (fun m => m.var? strayVar.name = some strayVar) ∧
    strayVar.owner ∉ strayResult.calls.reachable ∧
      (strayResult.flow.find? (.var strayVar)).isSome :=
  ⟨declared_stray, analyze_stray, by decide +kernel, by decide +kernel, by decide +kernel⟩

end Program

end PointsTo
