import Mathlib.Logic.Relation
import PointsTo.Proofs.CallGraph
import PointsTo.Proofs.FlowGraph
import PointsTo.Proofs.Solver.State
import PointsTo.Proofs.Validation
import PointsTo.Solver.Step

/-!
# What a piece of work may change

The effects of a statement are known exactly only if the memory is faithful. What is said here holds
for any memory. Most operations only draw: they add nodes for given pointers, edges, and objects
that are on their way (`Draws`). Apart from drawing, a statement may note a call, allocate an
object, or start to wait (`Act`), and a piece of work is a sequence of such moves, after objects
have arrived at a node (`process_moves`).
-/

namespace PointsTo

/-! ## Graphs that grow -/

namespace FlowGraph

variable {κ : Type} {ps ts : κ → Prop} {g g' g'' : FlowGraph κ}

/-- Objects may flow into the node: an edge leads there, or its key is one of the given ones. -/
def Sink (ts : κ → Prop) (g : FlowGraph κ) (j : Nat) : Prop :=
  (∃ n, ∃ e ∈ g.out n, e.target = j) ∨ ∃ k, g.key? j = some k ∧ ts k

/-- Only nodes and edges were added. The keys of the nodes satisfy `ps`, and those of the targets of
the edges satisfy `ts`. -/
structure Grows (ps ts : κ → Prop) (g g' : FlowGraph κ) : Prop where
  pts : ∀ j, g'.pts j = g.pts j
  key : ∀ {j k}, g.key? j = some k → g'.key? j = some k
  out : ∀ {n e}, e ∈ g.out n → e ∈ g'.out n
  fresh : ∀ {j k}, g'.key? j = some k → g.key? j = some k ∨ ps k
  edge : ∀ {n e}, e ∈ g'.out n → e ∈ g.out n ∨ ∃ k, g'.key? e.target = some k ∧ ts k

namespace Grows

theorem refl (ps ts : κ → Prop) (g : FlowGraph κ) : Grows ps ts g g :=
  ⟨fun _ => rfl, id, id, Or.inl, Or.inl⟩

theorem trans (h : Grows ps ts g g') (h' : Grows ps ts g' g'') : Grows ps ts g g'' where
  pts j := (h'.pts j).trans (h.pts j)
  key hj := h'.key (h.key hj)
  out he := h'.out (h.out he)
  fresh hj := (h'.fresh hj).elim h.fresh Or.inr
  edge he := by
    rcases h'.edge he with he | hnew
    · exact (h.edge he).imp_right fun ⟨k, hk, hts⟩ => ⟨k, h'.key hk, hts⟩
    · exact Or.inr hnew

theorem sink (h : Grows ps ts g g') {j : Nat} (hj : g.Sink ts j) : g'.Sink ts j := by
  rcases hj with ⟨n, e, he, rfl⟩ | ⟨k, hk, hts⟩
  · exact Or.inl ⟨n, e, h.out he, rfl⟩
  · exact Or.inr ⟨k, h.key hk, hts⟩

end Grows

theorem grows_intern [DecidableEq κ] {k : κ} (hk : ps k) (g : FlowGraph κ) :
    Grows ps ts g (g.intern k).2 where
  pts := pts_intern g k
  key hj := key?_intern.mpr (Or.inl hj)
  out he := (out_intern g k _).symm ▸ he
  fresh hj := by
    rcases key?_intern.mp hj with hj | ⟨-, rfl⟩
    · exact Or.inl hj
    · exact Or.inr hk
  edge he := Or.inl (out_intern g k _ ▸ he)

theorem grows_addEdge {i j : Nat} {a b : κ} (hi : g.key? i = some a)
    (hj : g.key? j = some b) (hb : ts b)
    (kind : EdgeKind) (filter : Option Ty) : Grows ps ts g (g.addEdge kind i j filter).2 where
  pts := pts_addEdge g kind i j filter
  key hn := (key?_addEdge ..).trans hn
  out := mem_out_addEdge_of_mem
  fresh hn := Or.inl ((key?_addEdge ..).symm.trans hn)
  edge he := by
    rcases mem_out_of_addEdge (lt_of_key? hi) he with he | ⟨-, rfl⟩
    · exact Or.inl he
    · exact Or.inr ⟨b, (key?_addEdge ..).trans hj, hb⟩

end FlowGraph

namespace Solver

variable {t : ClassTable} {s s' s'' : Solver} {ps ts : Pointer → Prop} {q a b : Pointer}

/-! ## Drawing -/

/-- Apart from what is remembered and told, only nodes for pointers that satisfy `ps`, edges to
pointers that satisfy `ts`, and objects on their way to such pointers or along edges were added to
the state. -/
structure Draws (ps ts : Pointer → Prop) (s s' : Solver) : Prop where
  heap : s'.heap = s.heap
  calls : s'.calls = s.calls
  waiting : s'.waiting = s.waiting
  facts : s'.facts = s.facts
  steps : s'.steps = s.steps
  flow : s.flow.Grows ps ts s'.flow
  work : ∃ ds : List (Nat × ObjSet), s'.queue = s.queue.pushAll (ds.map fun d => .delta d.1 d.2) ∧
    ∀ d ∈ ds, s'.flow.Sink ts d.1

namespace Draws

/-- A change of what is remembered, told, diagnosed or has failed. -/
theorem of_frame {memo : Memo} {diagnostics : Array Diagnostic} {events : Array Event}
    {fault : Option Fault} :
    Draws ps ts s { s with memo, diagnostics, events, fault } :=
  ⟨rfl, rfl, rfl, rfl, rfl, .refl ps ts s.flow, [], rfl, nofun⟩

theorem refl (ps ts : Pointer → Prop) (s : Solver) : Draws ps ts s s := of_frame

theorem trans (h : Draws ps ts s s') (h' : Draws ps ts s' s'') : Draws ps ts s s'' where
  heap := h'.heap.trans h.heap
  calls := h'.calls.trans h.calls
  waiting := h'.waiting.trans h.waiting
  facts := h'.facts.trans h.facts
  steps := h'.steps.trans h.steps
  flow := h.flow.trans h'.flow
  work := by
    obtain ⟨ds, hds, hsink⟩ := h.work
    obtain ⟨ds', hds', hsink'⟩ := h'.work
    refine ⟨ds ++ ds', by rw [hds', hds, List.map_append]; exact List.foldl_append.symm, ?_⟩
    exact List.forall_mem_append.mpr ⟨fun d hd => h'.flow.sink (hsink d hd), hsink'⟩

/-- Steps of a loop that each draw, if what they need goes on to hold. -/
theorem foldl {α : Type} {f : Solver → α → Solver} {l : List α} {p : Solver → Prop}
    (hp : ∀ {s s'}, Draws ps ts s s' → p s → p s') (h : ∀ s, ∀ a ∈ l, p s → Draws ps ts s (f s a)) :
    ∀ s, p s → Draws ps ts s (l.foldl f s) := by
  induction l with
  | nil => exact fun s _ => refl ps ts s
  | cons a l ih =>
    intro s hs
    have ha := h s a List.mem_cons_self hs
    exact ha.trans (ih (fun s b hb => h s b (List.mem_cons_of_mem a hb)) _ (hp ha hs))

end Draws

theorem ask_draws {α : Type} (x : StateM Memo α) (s : Solver) : Draws ps ts s (s.ask x).2 :=
  .of_frame

theorem tell_draws (e : Event) (s : Solver) : Draws ps ts s (s.tell e) := .of_frame

theorem key?_pointer (s : Solver) (q : Pointer) :
    (s.pointer q).2.flow.key? (s.pointer q).1 = some q :=
  FlowGraph.key?_intern_self s.flow q

theorem enqueue_draws {i : Nat} (hi : s.flow.Sink ts i) (os : ObjSet) :
    Draws ps ts s (s.enqueue i os) :=
  ⟨rfl, rfl, rfl, rfl, rfl, .refl ps ts s.flow, [(i, os)], rfl, List.forall_mem_singleton.mpr hi⟩

theorem pointer_draws (hq : ps q) (s : Solver) : Draws ps ts s (s.pointer q).2 :=
  ⟨rfl, rfl, rfl, rfl, rfl, FlowGraph.grows_intern hq s.flow, [], rfl, nofun⟩

theorem keepSubtypes_draws (type : Ty) (os : List Nat) :
    ∀ s : Solver, Draws ps ts s (keepSubtypes t type os s).2 := by
  induction os with
  | nil => exact Draws.refl ps ts
  | cons o os ih =>
    intro s
    unfold keepSubtypes
    dsimp only
    split
    · exact (ask_draws _ s).trans (ih _)
    · exact ih s

theorem send_draws {i : Nat} (hi : s.flow.Sink ts i) (os : ObjSet) (filter : Option Ty) :
    Draws ps ts s (s.send t i os filter) := by
  have hif : ∀ (os : ObjSet) {s : Solver}, s.flow.Sink ts i →
      Draws ps ts s (if os.isEmpty then s else s.enqueue i os) := by
    intro os s hi
    split_ifs
    · exact .refl ps ts s
    · exact enqueue_draws hi os
  unfold send
  cases filter with
  | none => exact hif os hi
  | some type =>
    have hkeep : Draws ps ts s (keepSubtypes t type os.ids s).2 := keepSubtypes_draws type os.ids s
    exact hkeep.trans (hif _ (hkeep.flow.sink hi))

theorem foldl_send_draws {es : List FlowEdge} (hes : ∀ e ∈ es, s.flow.Sink ts e.target)
    (os : ObjSet) :
    Draws ps ts s (es.foldl (fun s e => s.send t e.target os e.filter) s) :=
  Draws.foldl (p := fun s => ∀ e ∈ es, s.flow.Sink ts e.target)
    (fun hd h e he => hd.flow.sink (h e he)) (fun _ e he h => send_draws (h e he) os e.filter) s hes

theorem addEdge_draws {i j : Nat} (hi : s.flow.key? i = some a)
    (hj : s.flow.key? j = some b) (hb : ts b)
    (kind : EdgeKind) (filter : Option Ty) : Draws ps ts s (s.addEdge t kind i j filter) := by
  have hflow : ∀ e : Event, Draws ps ts s
      ({ s with flow := (s.flow.addEdge kind i j filter).2 }.tell e) := fun e =>
    ⟨rfl, rfl, rfl, rfl, rfl, FlowGraph.grows_addEdge hi hj hb kind filter, [], rfl, nofun⟩
  have hsink : s.flow.Sink ts j := Or.inr ⟨b, hj, hb⟩
  unfold addEdge
  dsimp only
  split_ifs
  · exact hflow _
  · exact (hflow _).trans (send_draws ((hflow _).flow.sink hsink) _ _)
  · exact .refl ps ts s

theorem connect_draws (ha : ps a) (hb : ps b) (hts : ts b) (kind : EdgeKind) (filter : Option Ty)
    (s : Solver) :
    Draws ps ts s (s.connect t kind a b filter) := by
  have hb' : Draws ps ts (s.pointer a).2 ((s.pointer a).2.pointer b).2 := pointer_draws hb _
  refine ((pointer_draws ha s).trans hb').trans ?_
  exact addEdge_draws (hb'.flow.key (key?_pointer s a)) (key?_pointer _ b) hts kind filter

theorem unresolved_draws (site : Stmt) (recv : Option Nat) (e : ResolutionError) (s : Solver) :
    Draws ps ts s (s.unresolved site recv e) := by
  unfold unresolved
  dsimp only
  split_ifs <;> exact .of_frame

theorem passArguments_draws {args formals : List Var} (hargs : ∀ v ∈ args, ps (.var v))
    (hformals : ∀ v ∈ formals, ps (.var v) ∧ ts (.var v)) (s : Solver) :
    Draws ps ts s (passArguments t args formals s) := by
  refine Draws.foldl (p := fun _ => True) (fun _ => id) (fun s x hx _ => ?_) s trivial
  obtain ⟨harg, hformal⟩ := List.of_mem_zip hx
  exact connect_draws (hargs _ harg) (hformals _ hformal).1 (hformals _ hformal).2 _ _ s

theorem passResult_draws {result : Option Var} {returned : List Var}
    (hresult : ∀ v ∈ result, ps (.var v) ∧ ts (.var v)) (hreturned : ∀ v ∈ returned, ps (.var v))
    (s : Solver) :
    Draws ps ts s (passResult t result returned s) := by
  unfold passResult
  cases result with
  | none => exact .refl ps ts s
  | some r =>
    obtain ⟨hps, hts⟩ := hresult r rfl
    refine (pointer_draws hps s).trans (Draws.foldl
      (p := fun s' => s'.flow.key? (s.pointer (.var r)).1 = some (.var r))
      (fun hd => hd.flow.key) (fun s' v hv hr => ?_) _ (key?_pointer s _))
    have hv' : Draws ps ts s' (s'.pointer (.var v)).2 := pointer_draws (hreturned v hv) s'
    exact hv'.trans (addEdge_draws (key?_pointer s' _) (hv'.flow.key hr) hts _ _)

end Solver

/-! ## Statements -/

/-- The variables of a method that calls of it may fill. -/
def Method.inputs (m : Method) : List Var := m.receiver.toList ++ m.formals

/-- The pointer belongs to no variable but the given ones. -/
def Pointer.Of (vs : List Var) : Pointer → Prop
  | var v => v ∈ vs
  | _ => True

namespace Solver

variable {t : ClassTable} {s s' : Solver} {i : Instr} {c : Invocation} {callee : Method}

/-- Notes that a call may run a method. -/
def noteCall (s : Solver) (c : Invocation) (callee : Method) : Solver :=
  let (fresh, calls) := s.calls.addEdge c.stmt callee.id c.call.kind.dispatched
  let s := { s with calls }
  if fresh then (s.tell (.callEdge c.stmt callee.id)).addReachable callee.id else s

theorem noteCall_of_isSome (h : (s.calls.edgeKind? c.stmt callee.id).isSome) :
    s.noteCall c callee = s := by
  unfold noteCall
  rw [CallGraph.addEdge_of_isSome h]
  rfl

theorem noteCall_of_not_isSome (h : ¬ (s.calls.edgeKind? c.stmt callee.id).isSome) :
    s.noteCall c callee =
    { s with
      calls := { s.calls.withEdge c.stmt callee.id c.call.kind.dispatched with
        reachable := if callee.id ∈ s.calls.reachable then s.calls.reachable
          else s.calls.reachable ++ [callee.id] }
      queue := s.queue.pushAll (if callee.id ∈ s.calls.reachable then [] else [.method callee.id])
      events := s.events.push (.callEdge c.stmt callee.id) } := by
  unfold noteCall
  rw [CallGraph.addEdge_of_not_isSome h]
  exact addReachable_eq _

theorem indexed_noteCall (h : s.calls.Indexed) (c : Invocation) (callee : Method) :
    (s.noteCall c callee).calls.Indexed := by
  by_cases hedge : (s.calls.edgeKind? c.stmt callee.id).isSome
  · rw [noteCall_of_isSome hedge]
    exact h
  · rw [noteCall_of_not_isSome hedge]
    exact (h.withEdge hedge).congr rfl rfl rfl

/-- Apart from what is told, only the call graph and the queue change. -/
theorem noteCall_frame (s : Solver) (c : Invocation) (callee : Method) : ∃ calls queue events,
    s.noteCall c callee = { s with calls, queue, events } := by
  by_cases h : (s.calls.edgeKind? c.stmt callee.id).isSome
  · exact ⟨_, _, _, noteCall_of_isSome h⟩
  · exact ⟨_, _, _, noteCall_of_not_isSome h⟩

theorem mem_reachable_of_noteCall {m : MethodId} (h : m ∈ (s.noteCall c callee).calls.reachable) :
    m ∈ s.calls.reachable ∨ m = callee.id := by
  by_cases hedge : (s.calls.edgeKind? c.stmt callee.id).isSome
  · rw [noteCall_of_isSome hedge] at h
    exact Or.inl h
  · rw [noteCall_of_not_isSome hedge] at h
    exact CallGraph.mem_ite_append.mp h

/-- Only the heap changes. -/
theorem object_frame (s : Solver) (site : Site) : ∃ heap, (s.object site).2 = { s with heap } := by
  unfold object
  split
  · exact ⟨s.heap, rfl⟩
  · exact ⟨_, rfl⟩

/-- What a statement may do to the state. -/
inductive Act (t : ClassTable) (i : Instr) : Solver → Solver → Prop
  | draw {s s' : Solver} (h : Draws (Pointer.Of i.vars) (Pointer.Of i.vars) s s') : Act t i s s'
  | call {s s' : Solver} {c : Invocation} {m : MethodId} {callee : Method} (hi : i = .call c)
    (hm : t.method? m = some callee)
    (h : Draws (Pointer.Of (i.vars ++ callee.inputs ++ callee.returned))
      (Pointer.Of (i.vars ++ callee.inputs))
      (s.noteCall c callee) s') : Act t i s s'
  | alloc {s : Solver} {site : Site} (hi : i = .new site) : Act t i s (s.object site).2
  | wait {s : Solver} : Act t i s { s with waiting := s.waiting ++ [i] }

/-- What a statement may do, one thing after the other. -/
abbrev Acts (t : ClassTable) (i : Instr) : Solver → Solver → Prop := Relation.ReflTransGen (Act t i)

theorem Draws.acts (h : Draws (Pointer.Of i.vars) (Pointer.Of i.vars) s s') : Acts t i s s' :=
  .single (.draw h)

/-- The receiver object of a call is on its way to the method that runs. -/
def receive (s : Solver) (recv : Option Nat) (this : Option Var) : Solver :=
  match recv, this with
  | some o, some this => (s.pointer (.var this)).2.enqueue (s.pointer (.var this)).1 (.singleton o)
  | _, _ => s

theorem link_act {m : MethodId} (hm : t.method? m = some callee) (recv : Option Nat) (s : Solver) :
    Act t (.call c) s (s.link t c recv callee) := by
  have hargs : ∀ v ∈ c.args,
      Pointer.Of ((Instr.call c).vars ++ callee.inputs ++ callee.returned) (.var v) := by
    simp +contextual [Pointer.Of, Instr.vars]
  have hresult : ∀ v ∈ c.call.result,
      Pointer.Of ((Instr.call c).vars ++ callee.inputs ++ callee.returned) (.var v) ∧
        Pointer.Of ((Instr.call c).vars ++ callee.inputs) (.var v) := by
    simp +contextual [Pointer.Of, Instr.vars]
  have hinputs : ∀ v ∈ callee.inputs,
      Pointer.Of ((Instr.call c).vars ++ callee.inputs ++ callee.returned) (.var v) ∧
        Pointer.Of ((Instr.call c).vars ++ callee.inputs) (.var v) := by
    simp +contextual [Pointer.Of]
  have hreturned : ∀ v ∈ callee.returned,
      Pointer.Of ((Instr.call c).vars ++ callee.inputs ++ callee.returned) (.var v) := by
    simp +contextual [Pointer.Of]
  have hformals : ∀ v ∈ callee.formals, v ∈ callee.inputs := fun v => List.mem_append_right _
  -- after the call was noted, the receiver comes first, then the arguments and the result
  have hvalues : ∀ s : Solver, Draws (Pointer.Of
      ((Instr.call c).vars ++ callee.inputs ++ callee.returned))
      (Pointer.Of ((Instr.call c).vars ++ callee.inputs)) s
      (if c.args.length ≠ callee.formals.length then
        s.fail (.argumentCount c.stmt.parent (Fault.shown c.call.text?) c.args.length callee.id)
      else passResult t c.call.result callee.returned
        (passArguments t c.args callee.formals s)) := by
    intro s
    split_ifs
    · exact .of_frame
    · exact (passArguments_draws hargs (fun v hv => hinputs v (hformals v hv)) s).trans
        (passResult_draws hresult hreturned _)
  refine .call rfl hm (Draws.trans ?_ (hvalues _))
  show Draws _ _ (s.noteCall c callee) ((s.noteCall c callee).receive recv callee.receiver)
  unfold receive
  split
  · next o this hthis =>
    obtain ⟨hps, hts⟩ :=
      hinputs this (List.mem_append_left _ (by rw [hthis]; exact List.mem_singleton_self this))
    exact (pointer_draws hps _).trans (enqueue_draws (Or.inr ⟨_, key?_pointer _ _, hts⟩) _)
  · exact .refl _ _ _

theorem dispatch_acts (c : Invocation) (recv : Option Nat) (s : Solver) :
    Acts t (.call c) s (s.dispatch t c recv) := by
  unfold dispatch
  refine .trans (ask_draws (c.call.target t (recv.bind s.typeOf?)) s).acts ?_
  dsimp only
  split
  · exact Draws.of_frame.acts
  · exact (unresolved_draws _ _ _ _).acts
  · split
    · next callee hm => exact .single (link_act hm recv _)
    · exact Draws.of_frame.acts

theorem fire_acts (o : Nat) (i : Instr) (s : Solver) : Acts t i s (s.fire t o i) := by
  unfold fire
  split_ifs
  · exact .refl
  cases i with
  | load x b f | store b f y | arrayLoad x b | arrayStore b y =>
    exact (connect_draws (by simp [Pointer.Of, Instr.vars]) (by simp [Pointer.Of, Instr.vars])
      (by simp [Pointer.Of, Instr.vars]) _ _ _).acts
  | call c => exact dispatch_acts c (some o) s
  | _ => exact .refl

theorem register_acts {base : Var} (hbase : base ∈ i.vars) (s : Solver) :
    Acts t i s (s.register t base i) := by
  have hfires : ∀ (os : List Nat) (s : Solver),
      Acts t i s (os.foldl (fun s o => s.fire t o i) s) := by
    intro os
    induction os with
    | nil => exact fun s => .refl
    | cons o os ih => exact fun s => (fire_acts o i s).trans (ih _)
  exact ((pointer_draws (q := .var base) hbase s).acts.trans (.single .wait)).trans (hfires _ _)

/-- Performing a statement is a sequence of what it may do. -/
theorem perform_acts (i : Instr) (s : Solver) : Acts t i s (s.perform t i) := by
  unfold perform
  split_ifs
  · exact .refl
  cases i with
  | new site =>
    have hlhs : Pointer.Of (Instr.new site).vars (.var site.lhs) := List.mem_singleton_self site.lhs
    have hsink : FlowGraph.Sink (Pointer.Of (Instr.new site).vars)
        ((s.pointer (.var site.lhs)).2.object site).2.flow (s.pointer (.var site.lhs)).1 := by
      obtain ⟨heap, heq⟩ := (s.pointer (.var site.lhs)).2.object_frame site
      rw [heq]
      exact Or.inr ⟨_, key?_pointer s _, hlhs⟩
    exact ((pointer_draws hlhs s).acts.trans (.single (.alloc rfl))).trans
      (enqueue_draws hsink _).acts
  | assign x y | cast x y type | staticLoad x f | staticStore f y =>
    dsimp only
    split_ifs
    · exact (connect_draws (by simp [Pointer.Of, Instr.vars]) (by simp [Pointer.Of, Instr.vars])
        (by simp [Pointer.Of, Instr.vars]) _ _ _).acts
    · exact .refl
  | load x b f | store b f y | arrayLoad x b | arrayStore b y =>
    dsimp only
    split_ifs
    · exact register_acts (by simp [Instr.vars]) s
    · exact .refl
  | call c =>
    dsimp only
    split_ifs
    · exact dispatch_acts c none s
    · split
      · next v hv => exact register_acts (by simp [Instr.vars, hv]) s
      · exact Draws.of_frame.acts
  | ret => exact .refl

/-! ## Pieces of work -/

/-- The statements that a piece of work may perform: those that wait, and those of a method that has
become reachable. -/
def Performs? (t : ClassTable) (s : Solver) (w : Work) (i : Instr) : Prop :=
  i ∈ s.waiting ∨ ∃ m M, w = .method m ∧ t.method? m = some M ∧ i ∈ M.instrs

/-- What a piece of work may do to the state. -/
inductive Move (t : ClassTable) (w : Work) : Solver → Solver → Prop
  | arrive {s : Solver} {p : Nat} {os : ObjSet} (hw : w = .delta p os) (new : ObjSet) : Move t w s
    { s with flow := s.flow.addPts p new, facts :=
      new.ids.foldl (fun fs o => fs.push (p, o)) s.facts }
  | draw {s s' : Solver} (h : Draws (fun _ => False) (fun _ => False) s s') : Move t w s s'
  | act {s s' : Solver} {i : Instr} (hi : s.Performs? t w i) (h : Act t i s s') : Move t w s s'

/-- What a piece of work may do, one thing after the other. -/
abbrev Moves (t : ClassTable) (w : Work) : Solver → Solver → Prop :=
  Relation.ReflTransGen (Move t w)

variable {w : Work}

/-- Statements that wait go on waiting. -/
theorem Act.waiting_subset (h : Act t i s s') : ∀ j ∈ s.waiting, j ∈ s'.waiting := by
  intro j hj
  cases h with
  | draw h =>
    rw [h.waiting]
    exact hj
  | call hi hm h =>
    obtain ⟨calls, queue, events, heq⟩ := s.noteCall_frame _ _
    rw [h.waiting, heq]
    exact hj
  | alloc hi =>
    obtain ⟨heap, heq⟩ := s.object_frame _
    rw [heq]
    exact hj
  | wait => exact List.mem_append_left _ hj

theorem Acts.moves (h : Acts t i s s') (hi : s.Performs? t w i) :
    Moves t w s s' ∧ s'.Performs? t w i ∧ ∀ j ∈ s.waiting, j ∈ s'.waiting := by
  induction h with
  | refl => exact ⟨.refl, hi, fun _ => id⟩
  | tail _ hact ih =>
    obtain ⟨hmoves, hi', hwaiting⟩ := ih
    have hsub := hact.waiting_subset
    exact ⟨hmoves.tail (.act hi' hact), hi'.imp_left (hsub i), fun j hj => hsub j (hwaiting j hj)⟩

theorem foldl_fire_moves (o : Nat) {is : List Instr} : ∀ {s : Solver}, (∀ i ∈ is, i ∈ s.waiting) →
    Moves t w s (is.foldl (fun s i => s.fire t o i) s) := by
  induction is with
  | nil => exact fun _ => .refl
  | cons i is ih =>
    intro s h
    obtain ⟨hmoves, -, hwaiting⟩ :=
      (fire_acts o i s).moves (w := w) (Or.inl (h i List.mem_cons_self))
    exact hmoves.trans (ih fun j hj => hwaiting j (h j (List.mem_cons_of_mem i hj)))

theorem mem_waiting_of_mem_waitingAt {v : Var} (h : i ∈ s.waitingAt v) : i ∈ s.waiting := by
  obtain ⟨r, -, hr⟩ := List.mem_flatMap.mp h
  exact (List.mem_filter.mp hr).1

theorem foldl_wake_moves (v : Var) (os : List Nat) : ∀ s : Solver,
    Moves t w s (os.foldl (fun s o => (s.waitingAt v).foldl (fun s i => s.fire t o i) s) s) := by
  induction os with
  | nil => exact fun _ => .refl
  | cons o os ih =>
    exact fun s => (foldl_fire_moves o fun i hi => mem_waiting_of_mem_waitingAt hi).trans (ih _)

theorem propagate_moves (p : Nat) (os : ObjSet) (s : Solver) :
    Moves t (.delta p os) s (s.propagate t p os) := by
  have hsend : ∀ (fresh : ObjSet) (s : Solver), Moves t (.delta p os) s
      ((s.flow.out p).foldl (fun s e => s.send t e.target fresh e.filter) s) := fun fresh s =>
    .single (.draw (foldl_send_draws (fun e he => Or.inl ⟨p, e, he, rfl⟩) fresh))
  unfold propagate
  dsimp only
  split_ifs
  · exact .refl
  · refine .trans (.single (.arrive rfl (os.diff (s.flow.pts p))))
      (.trans (hsend (os.diff (s.flow.pts p)) _) ?_)
    split
    · exact foldl_wake_moves _ _ _
    · exact .refl

theorem enter_moves (m : MethodId) (s : Solver) : Moves t (.method m) s (s.enter t m) := by
  have hperforms : ∀ {M : Method}, t.method? m = some M →
      ∀ is : List Instr, (∀ i ∈ is, i ∈ M.instrs) →
      ∀ s, Moves t (.method m) s (is.foldl (fun s i => s.perform t i) s) := by
    intro M hM is
    induction is with
    | nil => exact fun _ _ => .refl
    | cons i is ih =>
      intro his s
      have hi : s.Performs? t (.method m) i := Or.inr ⟨m, M, rfl, hM, his i List.mem_cons_self⟩
      exact ((perform_acts i s).moves hi).1.trans
        (ih (fun j hj => his j (List.mem_cons_of_mem i hj)) _)
  unfold enter
  refine .trans (.single (.draw (tell_draws (.reachable m) s))) ?_
  dsimp only
  split
  · next M hM => exact hperforms hM M.instrs (fun _ => id) _
  · exact .refl

/-- Doing a piece of work is a sequence of what it may do. -/
theorem process_moves (w : Work) (s : Solver) : Moves t w s (s.process t w) := by
  cases w with
  | delta p os => exact propagate_moves p os s
  | method m => exact enter_moves m s

/-- A step either finds no work, or takes a piece of work and does it. -/
theorem step_cases (t : ClassTable) (s : Solver) :
    (s.queue.pop? = none ∧ s.step t = s) ∨
      ∃ w queue, s.queue.pop? = some (w, queue) ∧
        Moves t w { s with queue, steps := s.steps + 1 } (s.step t) := by
  unfold step
  cases hpop : s.queue.pop? with
  | none => exact Or.inl ⟨rfl, rfl⟩
  | some x => exact Or.inr ⟨x.1, x.2, rfl, process_moves x.1 _⟩

end Solver

end PointsTo
