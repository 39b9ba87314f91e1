import Mathlib.Algebra.BigOperators.Group.Finset.Piecewise
import Mathlib.Algebra.BigOperators.Ring.List
import Mathlib.Algebra.Ring.Nat
import Mathlib.Algebra.Order.BigOperators.Group.Finset
import Mathlib.Logic.Function.Iterate
import PointsTo.Proofs.Solver.Agenda
import PointsTo.Proofs.Solver.Run

/-!
# Work runs out

A state has a potential: the pieces of work in the queue, and all that may still be added to it.
Every statement that waits has a price for each object that may still reach its base, every edge has
one for each object that may still reach its source, and every method that was not entered has the
prices of its statements. A step takes a piece of work from the queue, and whatever the turns that
follow add has been paid for, so the potential goes down, whatever the memory (`potential_step_lt`).

The potential counts objects up to the number of allocations of the program, which bounds the heap
(`Stocked.size_heap_le`). At the start it is below the bound on the number of steps
(`Initial.potential_lt`). So every run stops before it has taken so many steps, for a reason that
can be read off the state (`runUpTo_eq_iterate`).
-/

namespace PointsTo

/-! ## Graphs -/

namespace FlowGraph

variable {κ : Type} {g : FlowGraph κ} {n i : Nat}

/-- How often objects may still pass along the edges, if at most `n` objects may arrive at a
node. -/
def slack (n : Nat) (g : FlowGraph κ) : Nat :=
  ∑ i ∈ Finset.range g.size, (g.out i).length * (n - (g.pts i).size)

/-- Nodes without edges do not count. -/
theorem sum_range_eq_slack {m : Nat} (h : g.size ≤ m) :
    ∑ i ∈ Finset.range m, (g.out i).length * (n - (g.pts i).size) = g.slack n := by
  unfold slack
  refine (Finset.sum_subset (Finset.range_mono h) fun i _ hi => ?_).symm
  rw [out_eq_of_size_le (Nat.le_of_not_lt fun hlt => hi (Finset.mem_range.mpr hlt))]
  exact Nat.zero_mul _

@[simp] theorem slack_intern [DecidableEq κ] (g : FlowGraph κ) (k : κ) :
    (g.intern k).2.slack n = g.slack n := by
  rw [← sum_range_eq_slack (size_le_intern g k)]
  unfold slack
  simp only [out_intern, pts_intern]

/-- A sum in which one term is larger by `d`. -/
theorem sum_add_ite {m d : Nat} (f : Nat → Nat) (hi : i < m) :
    ∑ j ∈ Finset.range m, (f j + if j = i then d else 0) = ∑ j ∈ Finset.range m, f j + d := by
  rw [Finset.sum_add_distrib, Finset.sum_ite_eq', if_pos (Finset.mem_range.mpr hi)]

theorem slack_addEdge_le {kind : EdgeKind} {j : Nat} {filter : Option Ty} (hi : i < g.size) :
    (g.addEdge kind i j filter).2.slack n ≤ g.slack n + n := by
  by_cases h : (i, (⟨kind, j, filter⟩ : FlowEdge)) ∈ g.edges
  · rw [addEdge_of_mem h]
    exact Nat.le_add_right _ _
  unfold slack
  rw [size_addEdge, ← sum_add_ite _ hi]
  refine Finset.sum_le_sum fun k _ => ?_
  rw [pts_addEdge]
  split_ifs with hk
  · rw [hk, out_addEdge_self hi h, List.length_append, List.length_singleton, Nat.add_mul,
      Nat.one_mul]
    exact Nat.add_le_add_left (Nat.sub_le _ _) _
  · rw [out_addEdge_of_ne hk]
    exact Nat.le_add_right _ _

/-- Objects that arrive use up at least one passage along each edge that leaves. -/
theorem slack_addPts_add_le {fresh : ObjSet} (hi : i < g.size)
    (hlt : (g.pts i).size < ((g.pts i).union fresh).size) (hn : ((g.pts i).union fresh).size ≤ n) :
    (g.addPts i fresh).slack n + (g.out i).length ≤ g.slack n := by
  unfold slack
  rw [size_addPts, ← sum_add_ite _ hi]
  refine Finset.sum_le_sum fun k _ => ?_
  rw [out_addPts]
  split_ifs with hk
  · rw [hk, pts_addPts_self hi, ← Nat.mul_succ]
    exact Nat.mul_le_mul_left _ (by omega)
  · exact Nat.le_of_eq (by rw [pts_addPts_of_ne hk, Nat.add_zero])

end FlowGraph

/-! ## Prices -/

namespace Program

variable (p : Program)

/-- The identities that methods may have: those under which they are found, and those that they say
they have. -/
def identities : List MethodId := p.table.keyed.map Prod.fst ++ p.table.methods.map Method.id

/-- The number of identities that are not among the reachable ones. -/
def unreached (reachable : List MethodId) : Nat :=
  (p.identities.filter fun m => m ∉ reachable).length

/-- The price of performing a statement once. An edge is used once when it is added and once for
each object. -/
def cost (i : Instr) : Nat := i.weight p.returned * (p.allocations + 1)

/-- The price of the statements of a method: each is performed once without an object and once for
each. -/
def bodyCost (m : Method) : Nat := (m.instrs.map fun i => (p.allocations + 1) * p.cost i).sum

variable {p}

theorem length_identities : p.identities.length = 2 * p.table.methods.length := by
  unfold identities
  rw [List.length_append, List.length_map, List.length_map, ← ClassTable.map_snd_keyed,
    List.length_map,
    Nat.two_mul]

theorem mem_identities_of_method? {m : MethodId} {M : Method} (h : p.table.method? m = some M) :
    m ∈ p.identities ∧ M.id ∈ p.identities :=
  ⟨List.mem_append_left _ (List.mem_map.mpr ⟨(m, M), ClassTable.mem_keyed.mpr h, rfl⟩),
    List.mem_append_right _ (List.mem_map_of_mem (ClassTable.mem_methods_of_method? h))⟩

theorem price_le_cost (i : Instr) : p.allocations + 1 ≤ p.cost i := by
  refine Nat.le_mul_of_pos_left _ ?_
  unfold Instr.weight
  split
  · omega
  · exact Nat.one_pos

end Program

namespace Solver

section Definitions

variable (p : Program) (s : Solver)

/-- The pieces of work that are there, those of methods that may still become reachable, and those
that the edges may still bring. -/
def load : Nat := s.queue.toList.length + p.unreached s.calls.reachable + s.flow.slack p.allocations

/-- How many objects may still reach the base of a statement. -/
def room (i : Instr) : Nat :=
  match i.base? with
  | some b => p.allocations - (s.objectsAt b).length
  | none => 0

/-- What the statements that wait may still cost. -/
def waitingCost : Nat := (s.waiting.map fun i => s.room p i * p.cost i).sum

/-- The work that is there, and that which the graph and the waiting statements may still add. -/
def pool : Nat := s.load p + s.waitingCost p

/-- What a method may still cost: nothing if it was entered. -/
def dormantCost (x : MethodId × Method) : Nat := if s.Entered x.1 then 0 else p.bodyCost x.2

/-- What the methods that were not entered may still cost. -/
def dormant : Nat := (p.table.keyed.map (s.dormantCost p)).sum

/-- The work that is there, and all that may still be added. -/
def potential : Nat := s.pool p + s.dormant p

/-- What a turn adds to the pool at most. -/
def fee (u : Turn) : Nat := if u.waits then s.room p u.instr * p.cost u.instr else p.cost u.instr

end Definitions

variable {p : Program} {m₀ : Memo} {s s' : Solver} {u : Turn} {i j k : Nat} {os : ObjSet}
  {c : Invocation}
  {callee : Method} {recv : Option Nat} {v : Var} {w : Work} {queue : Queue Work}

/-! ## Loads -/

theorem load_pointer (s : Solver) (q : Pointer) : (s.pointer q).2.load p = s.load p := by
  unfold load pointer
  dsimp only
  rw [FlowGraph.slack_intern]

theorem load_keepSubtypes (type : Ty) : ∀ (l : List Nat) (s : Solver),
    (keepSubtypes p.table type l s).2.load p = s.load p
  | [], _ => rfl
  | o :: l, s => by
    unfold keepSubtypes
    dsimp only
    rw [load_keepSubtypes type l]
    split <;> rfl

/-- Steps of a loop that each spread objects and add at most `n` to the load. -/
theorem load_foldl_le {α : Type} {f : Solver → α → Solver} {l : List α} {n : Nat}
    {q : Solver → Prop}
    (hq : ∀ {s s'}, Spreads p.table m₀ s s' → q s → q s')
    (h : ∀ s, ∀ a ∈ l, s.Coherent p.table m₀ → q s →
      Spreads p.table m₀ s (f s a) ∧ (f s a).load p ≤ s.load p + n) :
    ∀ s, s.Coherent p.table m₀ → q s → (l.foldl f s).load p ≤ s.load p + l.length * n := by
  induction l with
  | nil => exact fun s _ _ => Nat.le_add_right _ _
  | cons a l ih =>
    intro s hs hqs
    obtain ⟨hspreads, hle⟩ := h s a List.mem_cons_self hs hqs
    have hrest :=
      ih (fun s b hb => h s b (List.mem_cons_of_mem a hb)) _ hspreads.coherent (hq hspreads hqs)
    rw [List.foldl_cons, List.length_cons, Nat.succ_mul]
    omega

section Loads

variable (hs : s.Coherent p.table m₀)

include hs

theorem load_enqueue (i : Nat) (os : ObjSet) : (s.enqueue i os).load p = s.load p + 1 := by
  have hlist : (s.enqueue i os).queue.toList = s.queue.toList ++ [.delta i os] :=
    Queue.toList_push hs.queue _
  unfold load
  rw [hlist, List.length_append, List.length_singleton]
  show s.queue.toList.length + 1 + p.unreached s.calls.reachable + s.flow.slack p.allocations = _
  omega

theorem load_send_le (i : Nat) (os : ObjSet) (filter : Option Ty) :
    (s.send p.table i os filter).load p ≤ s.load p + 1 := by
  have hif : ∀ {os : ObjSet} {s : Solver}, s.Coherent p.table m₀ →
      (if os.isEmpty then s else s.enqueue i os).load p ≤ s.load p + 1 := by
    intro os s hs
    split_ifs
    · exact Nat.le_succ _
    · exact Nat.le_of_eq (load_enqueue hs i os)
  unfold send
  cases filter with
  | none => exact hif hs
  | some type =>
    obtain ⟨hkeep, -⟩ := keepSubtypes_spreads (t := p.table) type os.ids hs
    exact Nat.le_trans (hif hkeep.coherent) (Nat.le_of_eq (by rw [load_keepSubtypes]))

/-- An edge may be used once when it is added, and once for each object. -/
theorem load_addEdge_le (hi : i < s.flow.size) (hj : j < s.flow.size) (kind : EdgeKind)
    (filter : Option Ty) :
    (s.addEdge p.table kind i j filter).load p ≤ s.load p + (p.allocations + 1) := by
  have hflow := flowEdge_spreads hs hi hj kind filter
  have hload : ({ s with flow := (s.flow.addEdge kind i j filter).2 } : Solver).load p ≤
      s.load p + p.allocations := by
    have hslack : (s.flow.addEdge kind i j filter).2.slack p.allocations ≤
        s.flow.slack p.allocations + p.allocations := FlowGraph.slack_addEdge_le hi
    unfold load
    dsimp only
    omega
  unfold addEdge
  dsimp only
  split_ifs
  · exact Nat.le_succ_of_le hload
  · have htell := tell_spreads hflow.coherent (.flowEdge kind i j)
    exact Nat.le_trans (load_send_le htell.coherent j _ filter) (Nat.succ_le_succ hload)
  · exact Nat.le_add_right _ _

theorem load_connect_le (kind : EdgeKind) (a b : Pointer) (filter : Option Ty) :
    (s.connect p.table kind a b filter).load p ≤ s.load p + (p.allocations + 1) := by
  have ha := pointer_spreads hs a
  have hb := pointer_spreads ha.coherent b
  have hi := FlowGraph.lt_of_key? (key?_pointer s a)
  have hj := FlowGraph.lt_of_key? (key?_pointer (s.pointer a).2 b)
  refine Nat.le_trans (load_addEdge_le hb.coherent (hb.lt_size hi) hj kind filter) (Nat.le_of_eq ?_)
  rw [load_pointer, load_pointer]

theorem load_passArguments_le (args formals : List Var) :
    (passArguments p.table args formals s).load p ≤
    s.load p + args.length * (p.allocations + 1) := by
  refine Nat.le_trans (load_foldl_le (q := fun _ => True) (fun _ => id)
    (fun s x _ hs _ => ⟨connect_spreads hs .., load_connect_le hs ..⟩) s hs trivial) ?_
  rw [List.length_zip]
  exact Nat.add_le_add_left (Nat.mul_le_mul_right _ (Nat.min_le_left _ _)) _

theorem load_passResult_le (result : Option Var) (returned : List Var) :
    (passResult p.table result returned s).load p ≤ s.load p + returned.length *
    (p.allocations + 1) := by
  unfold passResult
  cases result with
  | none => exact Nat.le_add_right _ _
  | some r =>
    have hr := pointer_spreads hs (.var r)
    have hlt := FlowGraph.lt_of_key? (key?_pointer s (.var r))
    rw [← load_pointer s (.var r)]
    refine load_foldl_le (q := fun s' => (s.pointer (.var r)).1 < s'.flow.size) (fun h => h.lt_size)
      (fun s' v _ hs' hlt => ?_) (s.pointer (.var r)).2 hr.coherent hlt
    have hv := pointer_spreads hs' (.var v)
    have hi := FlowGraph.lt_of_key? (key?_pointer s' (.var v))
    refine ⟨hv.trans (addEdge_spreads hv.coherent hi (hv.lt_size hlt) .ret none), ?_⟩
    exact Nat.le_trans (load_addEdge_le hv.coherent hi (hv.lt_size hlt) .ret none)
      (Nat.le_of_eq (by rw [load_pointer]))

theorem load_receive_le (recv : Option Nat) (this : Option Var) :
    (s.receive recv this).load p ≤ s.load p + 1 := by
  unfold receive
  split
  · next o this =>
    rw [load_enqueue (pointer_spreads hs (.var this)).coherent, load_pointer]
  · exact Nat.le_succ _

/-- A method that becomes reachable pays for the work of entering it. -/
theorem load_noteCall_le (hm : callee.id ∈ p.identities) (c : Invocation) :
    (s.noteCall c callee).load p ≤ s.load p := by
  by_cases h : (s.calls.edgeKind? c.stmt callee.id).isSome
  · rw [noteCall_of_isSome h]
  · rw [noteCall_of_not_isSome h]
    unfold load
    dsimp only
    rw [Queue.toList_pushAll hs.queue, List.length_append]
    split_ifs with hreach
    · exact Nat.le_refl _
    · have hless : p.unreached (s.calls.reachable ++ [callee.id]) < p.unreached s.calls.reachable :=
        length_unmet_lt hm hreach (List.mem_singleton_self callee.id)
      rw [List.length_singleton]
      omega

/-! ## Turns -/

theorem load_link_le (hrecv : ∀ o ∈ recv, o < s.heap.size) {m : MethodId}
    (hm : p.table.method? m = some callee)
    (c : Invocation) : (s.link p.table c recv callee).load p ≤ s.load p + p.cost (.call c) := by
  have hreturned : callee.returned.length ≤ p.returned := by
    rw [Program.returned, List.length_flatMap]
    exact List.single_le_sum (fun _ _ => Nat.zero_le _) _
      (List.mem_map_of_mem (ClassTable.mem_methods_of_method? hm))
  have hnote := noteCall_keeps hs c callee
  have hthis :=
    receive_spreads hnote.coherent (fun o ho => hnote.lt_size (hrecv o ho)) callee.receiver
  have hargs := passArguments_spreads hthis.coherent c.args callee.formals
  have hload₁ := load_noteCall_le hs (Program.mem_identities_of_method? hm).2 c
  have hload₂ := load_receive_le hnote.coherent recv callee.receiver
  have hload₃ := load_passArguments_le hthis.coherent c.args callee.formals
  have hload₄ := load_passResult_le hargs.coherent c.call.result callee.returned
  have hcost : 1 + c.args.length * (p.allocations + 1) + callee.returned.length *
      (p.allocations + 1) ≤
      p.cost (.call c) := by
    unfold Program.cost Instr.weight
    rw [Nat.add_mul, Nat.add_mul, Nat.one_mul]
    exact Nat.add_le_add (Nat.add_le_add_right (Nat.le_add_left 1 _) _)
      (Nat.mul_le_mul_right _ hreturned)
  rw [link_eq_ite]
  split_ifs
  · show ((s.noteCall c callee).receive recv callee.receiver).load p ≤ _
    omega
  · omega

/-- A call adds at most an arrival, and an edge for each argument and each variable that a method
returns. -/
theorem load_dispatch_le (hrecv : ∀ o ∈ recv, o < s.heap.size) (c : Invocation) :
    (s.dispatch p.table c recv).load p ≤ s.load p + p.cost (.call c) := by
  have hask := ask_spreads hs (c.call.target_settled p.table (recv.bind s.typeOf?))
  have hload : (s.ask (c.call.target p.table (recv.bind s.typeOf?))).2.load p = s.load p := rfl
  unfold dispatch
  dsimp only
  generalize s.ask (c.call.target p.table (recv.bind s.typeOf?)) = x at hask hload ⊢
  obtain ⟨target, s₁⟩ := x
  dsimp only at hask hload ⊢
  rw [← hload]
  obtain f | e | m := target
  · exact Nat.le_add_right _ _
  · unfold unresolved
    dsimp only
    split_ifs <;> exact Nat.le_add_right _ _
  · dsimp only
    cases hm : p.table.method? m with
    | none => exact Nat.le_add_right _ _
    | some callee => exact load_link_le hask.coherent (fun o ho => hask.heap.symm ▸ hrecv o ho) hm c

theorem load_fire_le {o : Nat} (ho : o < s.heap.size) (i : Instr) :
    (s.fire p.table o i).load p ≤ s.load p + p.cost i := by
  have hedge := fun kind a b => Nat.le_trans (load_connect_le hs kind a b none)
    (Nat.add_le_add_left (Program.price_le_cost i) _)
  unfold fire
  split_ifs
  · exact Nat.le_add_right _ _
  cases i with
  | load | store | arrayLoad | arrayStore => exact hedge _ _ _
  | call c =>
    refine load_dispatch_le hs ?_ c
    rintro _ ⟨⟩
    exact ho
  | _ => exact Nat.le_add_right _ _

theorem load_perform_le {i : Instr} (hi : i.waitsAt? = none) :
    (s.perform p.table i).load p ≤ s.load p + p.cost i := by
  have hedge := fun kind a b filter => Nat.le_trans (load_connect_le hs kind a b filter)
    (Nat.add_le_add_left (Program.price_le_cost i) _)
  unfold perform
  split_ifs
  · exact Nat.le_add_right _ _
  cases i with
  | new site =>
    have hp := pointer_spreads hs (.var site.lhs)
    have hload : ((s.pointer (.var site.lhs)).2.object site).2.load p = s.load p := by
      obtain ⟨heap, heq⟩ := object_frame (s.pointer (.var site.lhs)).2 site
      rw [heq]
      exact load_pointer s _
    dsimp only
    rw [load_enqueue (object_keeps hp.coherent site).coherent, hload]
    exact Nat.add_le_add_left (Nat.le_trans (Nat.le_add_left 1 _) (Program.price_le_cost _)) _
  | assign | cast | staticLoad | staticStore =>
    dsimp only
    split_ifs
    · exact hedge _ _ _ _
    · exact Nat.le_add_right _ _
  | load | store | arrayLoad | arrayStore =>
    unfold Instr.waitsAt? at hi
    dsimp only at hi ⊢
    split_ifs at hi ⊢
    exact Nat.le_add_right _ _
  | call c =>
    unfold Instr.waitsAt? at hi
    dsimp only at hi ⊢
    split_ifs at hi ⊢
    · exact load_dispatch_le hs (by rintro _ ⟨⟩) c
    · rw [hi]
      exact Nat.le_add_right _ _
  | ret => exact Nat.le_add_right _ _

theorem load_turn_le (hu : ∀ o ∈ u.object, o < s.heap.size) :
    (s.turn p.table u).load p ≤ s.load p + if u.waits then 0 else p.cost u.instr := by
  obtain ⟨i, object⟩ := u
  cases object with
  | some o => exact load_fire_le hs (hu o rfl) i
  | none =>
    show (s.prepare p.table i).load p ≤ s.load p + if i.waitsAt?.isSome then 0 else p.cost i
    unfold prepare
    cases hi : i.waitsAt? with
    | none => exact load_perform_le hs hi
    | some v =>
      rw [Option.isSome_some, if_pos rfl]
      dsimp only
      split_ifs
      · exact Nat.le_refl _
      · show (s.pointer (.var v)).2.load p ≤ s.load p + 0
        rw [load_pointer]
        exact Nat.le_refl _

end Loads

theorem Keeps.room_eq (h : Keeps p.table m₀ s s') (i : Instr) : s'.room p i = s.room p i := by
  unfold room
  rw [funext h.objectsAt_eq]

theorem Keeps.fee_eq (h : Keeps p.table m₀ s s') (u : Turn) : s'.fee p u = s.fee p u := by
  unfold fee
  rw [h.room_eq]

theorem Goes.waitingCost_le (h : Goes p.table m₀ s u s') :
    s'.waitingCost p ≤
      s.waitingCost p + if u.waits then s.room p u.instr * p.cost u.instr else 0 := by
  unfold waitingCost
  simp only [h.keeps.room_eq]
  rcases h.waiting_cases with ⟨hwaiting, -⟩ | ⟨hwaiting, hwaits⟩
  · rw [hwaiting]
    exact Nat.le_add_right _ _
  · rw [hwaiting, hwaits, List.map_append, List.sum_append, List.map_singleton, List.sum_singleton]
    exact Nat.le_refl _

theorem pool_turn_le (hs : s.Coherent p.table m₀) (hu : ∀ o ∈ u.object, o < s.heap.size) :
    (s.turn p.table u).pool p ≤ s.pool p + s.fee p u := by
  have hload := load_turn_le hs hu
  have hwaiting := (turn_goes hs hu).waitingCost_le
  unfold pool fee
  cases hw : u.waits with
  | true =>
    simp only [hw, if_true] at hload hwaiting ⊢
    omega
  | false =>
    simp only [hw, Bool.false_eq_true, if_false] at hload hwaiting ⊢
    omega

theorem pool_turns_le : ∀ {us : List Turn} {s : Solver}, s.Coherent p.table m₀ →
    (∀ u ∈ us, ∀ o ∈ u.object, o < s.heap.size) →
      (us.foldl (turn p.table) s).pool p ≤ s.pool p + (us.map (s.fee p)).sum := by
  intro us
  induction us with
  | nil => exact fun _ _ => Nat.le_refl _
  | cons u us ih =>
    intro s hs hlt
    have hkeeps := (turn_goes hs (hlt u List.mem_cons_self)).keeps
    have hfirst := pool_turn_le hs (hlt u List.mem_cons_self)
    have hrest := ih hkeeps.coherent fun u' hu' o ho =>
      hkeeps.lt_size (hlt u' (List.mem_cons_of_mem u hu') o ho)
    rw [funext hkeeps.fee_eq] at hrest
    rw [List.foldl_cons, List.map_cons, List.sum_cons]
    omega

/-! ## Fees -/

theorem room_of_base? {i : Instr} {b : Var} (h : i.base? = some b) :
    s.room p i = p.allocations - (s.objectsAt b).length := by
  unfold room
  rw [h]

/-- A statement of a method that is entered, with the objects at its base. -/
theorem sum_fee_turnsOf_le (hs : s.Coherent p.table m₀) (hn : s.heap.size ≤ p.allocations)
    (i : Instr) :
    ((s.turnsOf i).map (s.fee p)).sum ≤ (p.allocations + 1) * p.cost i := by
  unfold turnsOf
  rw [List.map_cons, List.sum_cons, List.map_map]
  cases hi : i.waitsAt? with
  | none =>
    have hfee : s.fee p ⟨i, none⟩ = p.cost i := by simp [fee, Turn.waits, hi]
    rw [hfee]
    exact Nat.le_mul_of_pos_left _ (Nat.succ_pos _)
  | some b =>
    have hlen : (s.objectsAt b).length ≤ p.allocations := Nat.le_trans (hs.pts _).size_le hn
    have hfee : s.fee p ⟨i, none⟩ = (p.allocations - (s.objectsAt b).length) * p.cost i := by
      simp [fee, Turn.waits, hi, room_of_base? (Instr.base?_of_waitsAt? hi)]
    have hmet : ((s.objectsAt b).map (s.fee p ∘ fun o => ⟨i, some o⟩)).sum =
        (s.objectsAt b).length * p.cost i := by
      show ((s.objectsAt b).map fun _ => p.cost i).sum = _
      rw [List.map_const', List.sum_replicate_nat]
    rw [hfee, Option.toList_some, List.flatMap_singleton, hmet, ← Nat.add_mul,
      Nat.sub_add_cancel hlen]
    exact Nat.mul_le_mul_right _ (Nat.le_succ _)

theorem sum_map_flatMap_le {α β : Type} {f : α → List β} {g : β → Nat} {b : α → Nat} {l : List α}
    (h : ∀ a ∈ l, ((f a).map g).sum ≤ b a) : ((l.flatMap f).map g).sum ≤ (l.map b).sum := by
  induction l with
  | nil => exact Nat.le_refl _
  | cons a l ih =>
    rw [List.flatMap_cons, List.map_append, List.sum_append, List.map_cons, List.sum_cons]
    exact Nat.add_le_add (h a List.mem_cons_self) (ih fun b hb => h b (List.mem_cons_of_mem _ hb))

theorem sum_fee_agenda_method_le (hs : s.Coherent p.table m₀) (hn : s.heap.size ≤ p.allocations)
    {m : MethodId} {M : Method} (hM : p.table.method? m = some M) :
    ((s.agenda p.table (.method m)).map (s.fee p)).sum ≤ p.bodyCost M := by
  rw [agenda_method hM]
  exact sum_map_flatMap_le fun i _ => sum_fee_turnsOf_le hs hn i

/-- The statements that wait at a variable, in whatever order. -/
theorem sum_waitingAt (f : Instr → Nat) : ((s.waitingAt v).map f).sum =
    (s.waiting.map fun i => if i.base? = some v then f i else 0).sum := by
  have hrange : List.range 5 = [0, 1, 2, 3, 4] := rfl
  unfold waitingAt
  rw [hrange]
  simp only [List.flatMap_cons, List.flatMap_nil, List.map_append, List.sum_append, List.map_nil,
    List.sum_nil]
  induction s.waiting with
  | nil => rfl
  | cons i l ih =>
    rw [List.map_cons, List.sum_cons, ← ih]
    by_cases hv : i.base? = some v
    · cases i <;> simp [hv, Instr.rank] <;> omega
    · simp [hv]

/-- The statements that wait at a variable are performed for each object that arrives there. -/
theorem sum_fee_agenda_delta_le (hk : s.flow.key? k = some (.var v)) (os : ObjSet) (s' : Solver) :
    ((s.agenda p.table (.delta k os)).map (s'.fee p)).sum ≤ (os.diff (s.flow.pts k)).size *
      (s.waiting.map fun i => if i.base? = some v then p.cost i else 0).sum := by
  rw [agenda_delta_var hk, ← sum_waitingAt]
  refine Nat.le_trans (sum_map_flatMap_le (b := fun _ => ((s.waitingAt v).map p.cost).sum)
    fun o _ => ?_) (Nat.le_of_eq ?_)
  · rw [List.map_map]
    exact Nat.le_refl _
  · rw [List.map_const', List.sum_replicate_nat]
    rfl

/-! ## Objects that arrive -/

section Arrival

variable {fresh : ObjSet} (hs : s.Coherent p.table m₀)

include hs

theorem objectsAt_join (v : Var) : (s.join k fresh).objectsAt v =
    ((s.flow.addPts k fresh).pts (s.flow.intern (.var v)).1).ids := by
  unfold objectsAt join
  dsimp only
  rw [hs.flow.intern_addPts]

theorem objectsAt_join_self (hk : s.flow.key? k = some (.var v)) :
    (s.join k fresh).objectsAt v = ((s.flow.pts k).union fresh).ids := by
  rw [objectsAt_join hs, FlowGraph.intern_of_find? (hs.flow.find?_eq hk),
    FlowGraph.pts_addPts_self (FlowGraph.lt_of_key? hk)]

theorem objectsAt_join_of_ne (hlt : k < s.flow.size) (hk : s.flow.key? k ≠ some (.var v)) :
    (s.join k fresh).objectsAt v = s.objectsAt v := by
  rw [objectsAt_join hs]
  unfold objectsAt
  rw [FlowGraph.pts_addPts_of_ne ?_]
  rintro rfl
  cases hfind : s.flow.find? (.var v) with
  | some n =>
    rw [FlowGraph.intern_of_find? hfind] at hk
    exact hk (FlowGraph.key?_of_find? hfind)
  | none =>
    rw [FlowGraph.intern_of_find?_eq_none hfind] at hlt
    exact Nat.lt_irrefl _ hlt

theorem room_join_of_ne (hlt : k < s.flow.size) {i : Instr}
    (hi : ∀ b, i.base? = some b → s.flow.key? k ≠ some (.var b)) :
    (s.join k fresh).room p i = s.room p i := by
  cases hb : i.base? with
  | none =>
    unfold room
    rw [hb]
  | some b => rw [room_of_base? hb, room_of_base? hb, objectsAt_join_of_ne hs hlt (hi b hb)]

/-- Each object that arrives at a variable takes away from the room of the statements there what
performing them costs. -/
theorem room_join_mul_add (hv : s.flow.key? k = some (.var v))
    (hsize : ((s.flow.pts k).union fresh).size = (s.flow.pts k).size + fresh.size)
    (hle : ((s.flow.pts k).union fresh).size ≤ p.allocations) (i : Instr) :
    (s.join k fresh).room p i * p.cost i +
      fresh.size * (if i.base? = some v then p.cost i else 0) = s.room p i * p.cost i := by
  have hobjects : (s.objectsAt v).length = (s.flow.pts k).size := by
    unfold objectsAt
    rw [FlowGraph.intern_of_find? (hs.flow.find?_eq hv)]
    rfl
  split_ifs with hi
  · have hlen : (((s.flow.pts k).union fresh).ids).length = (s.flow.pts k).size + fresh.size :=
      hsize
    rw [room_of_base? hi, room_of_base? hi, objectsAt_join_self hs hv, hlen, hobjects,
      ← Nat.add_mul]
    congr 1
    omega
  · rw [room_join_of_ne hs (FlowGraph.lt_of_key? hv), Nat.mul_zero, Nat.add_zero]
    intro b hb hkey
    cases hkey.symm.trans hv
    exact hi hb

/-- Waiting statements are performed for objects that arrive, as has been paid for. -/
theorem waitingCost_join_add_le (hn : s.heap.size ≤ p.allocations) (hlt : k < s.flow.size)
    (hos : os.Below s.heap.size) (s' : Solver) :
    (s.join k (os.diff (s.flow.pts k))).waitingCost p +
      ((s.agenda p.table (.delta k os)).map (s'.fee p)).sum ≤ s.waitingCost p := by
  by_cases hvar : ∃ v, s.flow.key? k = some (.var v)
  · obtain ⟨v, hv⟩ := hvar
    have hfees := sum_fee_agenda_delta_le (p := p) hv os s'
    have hroom := room_join_mul_add (p := p) hs hv
      (ObjSet.size_union_diff (hs.pts k).nodup hos.nodup)
      (Nat.le_trans ((hs.pts k).union_diff hos).size_le hn)
    refine Nat.le_trans (Nat.add_le_add_left hfees _) (Nat.le_of_eq ?_)
    unfold waitingCost
    rw [← List.sum_map_mul_left]
    show (s.waiting.map _).sum + _ = _
    rw [← List.sum_map_add]
    simp only [hroom]
  · refine Nat.le_of_eq ?_
    rw [agenda_delta_of_not_var (not_exists.mp hvar)]
    unfold waitingCost
    simp only [room_join_of_ne hs hlt fun b _ hkey => hvar ⟨b, hkey⟩]
    rfl

/-- Passing objects on along the edges has been paid for. -/
theorem load_arrive_le (hn : s.heap.size ≤ p.allocations) (hlt : k < s.flow.size)
    (hos : os.Below s.heap.size)
    (hnew : (os.diff (s.flow.pts k)).isEmpty = false) :
    (s.arrive p.table k (os.diff (s.flow.pts k))).load p ≤ s.load p := by
  have hsize := ObjSet.size_union_diff (hs.pts k).nodup hos.nodup
  have hpos : 0 < (os.diff (s.flow.pts k)).size := by
    refine List.length_pos_iff.mpr fun h => ?_
    rw [ObjSet.isEmpty_iff.mpr h] at hnew
    exact nomatch hnew
  have hslack := FlowGraph.slack_addPts_add_le hlt (n := p.allocations) (by omega)
    (Nat.le_trans ((hs.pts k).union_diff hos).size_le hn)
  have hjoin : (s.join k (os.diff (s.flow.pts k))).load p + (s.flow.out k).length ≤ s.load p := by
    unfold load join
    dsimp only
    omega
  have hsend : (s.arrive p.table k (os.diff (s.flow.pts k))).load p ≤
      (s.join k (os.diff (s.flow.pts k))).load p + (s.flow.out k).length * 1 := by
    rw [← FlowGraph.out_addPts s.flow k (os.diff (s.flow.pts k)) k]
    refine load_foldl_le (q := fun s' => (∀ e ∈ (s.flow.addPts k (os.diff (s.flow.pts k))).out k,
        e.target < s'.flow.size) ∧ (os.diff (s.flow.pts k)).Below s'.heap.size)
      (fun h hq => ⟨fun e he => h.lt_size (hq.1 e he), h.heap.symm ▸ hq.2⟩)
      (fun s' e he hs' hq => ⟨send_spreads hs' (hq.1 e he) hq.2 e.filter, load_send_le hs' _ _ _⟩)
      _ (hs.join hlt hos) ⟨fun e he => ?_, hos.diff _⟩
    show e.target < (s.flow.addPts k _).size
    rw [FlowGraph.size_addPts]
    exact hs.flow.target_lt (FlowGraph.out_addPts s.flow k _ k ▸ he)
  omega

/-- Objects that arrive bring no more than has been paid for. -/
theorem pool_arrive_add_le (hn : s.heap.size ≤ p.allocations) (hlt : k < s.flow.size)
    (hos : os.Below s.heap.size) (hnew : (os.diff (s.flow.pts k)).isEmpty = false) (s' : Solver) :
    (s.arrive p.table k (os.diff (s.flow.pts k))).pool p +
      ((s.agenda p.table (.delta k os)).map (s'.fee p)).sum ≤ s.pool p := by
  have hload := load_arrive_le hs hn hlt hos hnew
  have hwaiting := waitingCost_join_add_le hs hn hlt hos s'
  have harrive := arrive_spreads hs hlt hos
  have hcost : (s.arrive p.table k (os.diff (s.flow.pts k))).waitingCost p =
      (s.join k (os.diff (s.flow.pts k))).waitingCost p := by
    unfold waitingCost
    rw [harrive.waiting]
    simp only [harrive.keeps.room_eq]
  unfold pool
  omega

end Arrival

/-! ## Steps -/

theorem dormantCost_le_of_entered (h : ∀ m, s.Entered m → s'.Entered m) (x : MethodId × Method) :
    s'.dormantCost p x ≤ s.dormantCost p x := by
  unfold dormantCost
  by_cases hx : s.Entered x.1
  · rw [if_pos (h _ hx)]
    exact Nat.zero_le _
  · rw [if_neg hx]
    split_ifs
    · exact Nat.zero_le _
    · exact Nat.le_refl _

/-- If more methods are entered, less is dormant. -/
theorem dormant_le_of_entered (h : ∀ m, s.Entered m → s'.Entered m) : s'.dormant p ≤ s.dormant p :=
  List.sum_le_sum fun x _ => dormantCost_le_of_entered h x

theorem Entered.taken {m : MethodId} (hm : s.Entered m) (hpop : s.queue.pop? = some (w, queue)) :
    (s.taken queue).Entered m :=
  ⟨hm.1, fun hq => hm.2 ((mem_queued_iff_taken hpop).mpr (Or.inr hq))⟩

/-- Taking a piece of work from the queue. -/
theorem pool_taken (hpop : s.queue.pop? = some (w, queue)) :
    (s.taken queue).pool p + 1 = s.pool p := by
  have hlen : s.queue.toList.length = queue.toList.length + 1 := by
    rw [Queue.toList_of_pop? hpop, List.length_cons]
  show queue.toList.length + p.unreached s.calls.reachable + s.flow.slack p.allocations +
    s.waitingCost p + 1 = _
  unfold pool load
  omega

/-- A method that is taken from the queue is entered, and what it was to cost is set free. -/
theorem dormant_taken_add_le (hs : s.Coherent p.table m₀) {m : MethodId} {M : Method}
    (hpop : s.queue.pop? = some (.method m, queue)) (hM : p.table.method? m = some M) :
    (s.taken queue).dormant p + p.bodyCost M ≤ s.dormant p := by
  have hmono := dormantCost_le_of_entered (p := p) fun m (hm : s.Entered m) => hm.taken hpop
  have hqueued : m ∈ s.queued := (mem_queued_iff_taken hpop).mpr (Or.inl rfl)
  have hbefore : s.dormantCost p (m, M) = p.bodyCost M := if_neg fun hm => hm.2 hqueued
  have hafter : (s.taken queue).dormantCost p (m, M) = 0 := by
    refine if_pos ⟨hs.queued_reachable _ hqueued, ?_⟩
    have hnodup := hs.queued_nodup
    unfold queued at hnodup
    rw [Queue.toList_of_pop? hpop, List.filterMap_cons] at hnodup
    exact (List.nodup_cons.mp hnodup).1
  obtain ⟨l, l', hl⟩ := List.append_of_mem (ClassTable.mem_keyed.mpr hM)
  have hl₁ := List.sum_le_sum (l := l) fun x _ => hmono x
  have hl₂ := List.sum_le_sum (l := l') fun x _ => hmono x
  unfold dormant
  rw [hl]
  simp only [List.map_append, List.map_cons, List.sum_append, List.sum_cons, hbefore, hafter]
  omega

/-- Taking a piece of work pays for all the turns that follow. -/
theorem Opens.potential_add_lt {first : Solver} {us : List Turn} (h : s.Opens p.table m₀ first us)
    (hs : s.Coherent p.table m₀) (hn : s.heap.size ≤ p.allocations) (hbusy : s.queue.pop? ≠ none) :
    first.pool p + (us.map (first.fee p)).sum + first.dormant p < s.potential p := by
  unfold potential
  cases h with
  | idle hpop => exact absurd hpop hbusy
  | known hpop =>
    have hpool := pool_taken (p := p) hpop
    have hdormant := dormant_le_of_entered (p := p) fun m (hm : s.Entered m) => hm.taken hpop
    rw [List.map_nil, List.sum_nil]
    omega
  | @arrive k os queue hpop hk hos hnew h =>
    have hpool := pool_taken (p := p) hpop
    have harrive := pool_arrive_add_le (hs.taken hpop) hn hk hos hnew
      ((s.taken queue).arrive p.table k (os.diff (s.flow.pts k)))
    have hdormant : ((s.taken queue).arrive p.table k (os.diff (s.flow.pts k))).dormant p ≤
        s.dormant p :=
      dormant_le_of_entered fun m hm => (h.keeps.entered m).mpr (hm.taken hpop)
    have hagenda : (s.taken queue).agenda p.table (.delta k os) = s.agenda p.table (.delta k os) :=
      rfl
    have hpts : (s.taken queue).flow.pts k = s.flow.pts k := rfl
    rw [hagenda, hpts] at harrive
    omega
  | @enter m queue hpop h =>
    have hpool := pool_taken (p := p) hpop
    have hfees : ∀ u, ((s.taken queue).tell (.reachable m)).fee p u = s.fee p u := fun _ => rfl
    have hsame : ((s.taken queue).tell (.reachable m)).pool p = (s.taken queue).pool p := rfl
    have hdormant : ((s.taken queue).tell (.reachable m)).dormant p = (s.taken queue).dormant p :=
      rfl
    rw [funext hfees, hsame, hdormant]
    cases hM : p.table.method? m with
    | none =>
      have hmono := dormant_le_of_entered (p := p) fun m (hm : s.Entered m) => hm.taken hpop
      rw [agenda_method_of_eq_none hM, List.map_nil, List.sum_nil]
      omega
    | some M =>
      have hprice := sum_fee_agenda_method_le hs hn hM
      have hfree := dormant_taken_add_le hs hpop hM
      omega

/-- A step that takes a piece of work lowers the potential. -/
theorem potential_step_lt (hs : s.Coherent p.table m₀) (hn : s.heap.size ≤ p.allocations)
    (hbusy : s.queue.pop? ≠ none) : (s.step p.table).potential p < s.potential p := by
  have hopens := opens_opened hs
  have hlt := hopens.potential_add_lt hs hn hbusy
  have hpool := pool_turns_le (hopens.coherent hs) fun u hu => hopens.object_lt hs hu
  have hdormant : (s.step p.table).dormant p ≤ (s.opened p.table).dormant p :=
    dormant_le_of_entered fun m => ((keeps_step hs).entered m).mpr
  rw [← step_eq_turns hs] at hpool
  have hpotential : (s.step p.table).potential p =
      (s.step p.table).pool p + (s.step p.table).dormant p := rfl
  omega

/-! ## Objects -/

/-- Objects are told apart by their allocations, which are statements of the program. -/
structure Stocked (p : Program) (s : Solver) : Prop where
  nodup : s.heap.toList.Nodup
  site : ∀ site ∈ s.heap.toList, .new site ∈ p.instrs

namespace Stocked

/-- So there are at most as many objects as allocations. -/
theorem size_heap_le (h : s.Stocked p) : s.heap.size ≤ p.allocations := by
  have hnodup := h.nodup.map fun a b hab => Instr.new.inj hab
  unfold Program.allocations
  rw [← Array.length_toList, ← List.length_map Instr.new]
  refine hnodup.length_le_of_subset fun i hi => ?_
  obtain ⟨site, hsite, rfl⟩ := List.mem_map.mp hi
  exact List.mem_filter.mpr ⟨h.site site hsite, rfl⟩

theorem object (h : s.Stocked p) {site : Site} (hsite : .new site ∈ p.instrs) :
    (s.object site).2.Stocked p := by
  unfold Solver.object
  split
  · exact h
  · next hnone =>
    have hnot : site ∉ s.heap.toList := by
      intro hmem
      have hall := Array.findIdx?_eq_none_iff.mp hnone site (Array.mem_toList_iff.mp hmem)
      exact of_decide_eq_false hall rfl
    refine ⟨?_, fun site' hmem => ?_⟩
    · dsimp only
      rw [Array.toList_push]
      exact List.concat_eq_append ▸ h.nodup.concat hnot
    · dsimp only at hmem
      rw [Array.toList_push] at hmem
      rcases List.mem_append.mp hmem with hmem | hmem
      · exact h.site site' hmem
      · exact List.mem_singleton.mp hmem ▸ hsite

theorem congr (h : s.Stocked p) (hheap : s'.heap = s.heap) : s'.Stocked p := by
  obtain ⟨hnodup, hsite⟩ := h
  rw [← hheap] at hnodup hsite
  exact ⟨hnodup, hsite⟩

theorem turn (h : s.Stocked p) (hs : s.Coherent p.table m₀) (hu : ∀ o ∈ u.object, o < s.heap.size)
    (hinstr : u.object = none → u.instr ∈ p.instrs) : (s.turn p.table u).Stocked p := by
  rcases (turn_goes hs hu).heap_cases with hheap | ⟨site, rfl, hheap⟩
  · exact h.congr hheap
  · exact (h.object (hinstr rfl)).congr hheap

end Stocked

/-- The statements that have turns of their own are those of the program. -/
theorem Opens.instr_mem {first : Solver} {us : List Turn} (h : s.Opens p.table m₀ first us)
    (hu : u ∈ us)
    (hnone : u.object = none) : u.instr ∈ p.instrs := by
  cases h with
  | idle hpop => exact absurd hu List.not_mem_nil
  | known hpop => exact absurd hu List.not_mem_nil
  | arrive hpop hp hos hnew h => exact absurd hnone (object_of_mem_agenda_delta hu)
  | @enter m queue hpop h =>
    cases hM : p.table.method? m with
    | none =>
      rw [agenda_method_of_eq_none hM] at hu
      exact absurd hu List.not_mem_nil
    | some M =>
      obtain ⟨i, hi, hu⟩ := (mem_agenda_method hM).mp hu
      rw [instr_of_mem_turnsOf hu]
      exact List.mem_flatMap.mpr ⟨M, ClassTable.mem_methods_of_method? hM, hi⟩

theorem Stocked.step (h : s.Stocked p) (hs : s.Coherent p.table m₀) :
    (s.step p.table).Stocked p := by
  have hopens := opens_opened hs
  rw [step_eq_turns hs]
  refine (turns_induction (p := fun s' => Keeps p.table m₀ (s.opened p.table) s' ∧ s'.Stocked p)
    (fun s' hs' u hu => ?_) ⟨.refl (hopens.coherent hs), h.congr hopens.heap⟩).2
  have hlt := hopens.object_lt hs hu
  exact ⟨keeps_turn hs'.1 hlt, hs'.2.turn hs'.1.coherent (fun o ho => hs'.1.lt_size (hlt o ho))
    fun hnone => hopens.instr_mem hu hnone⟩

/-! ## Faults -/

/-- The price of all methods together. -/
theorem sum_bodyCost : (p.table.methods.map p.bodyCost).sum =
    (p.allocations + 1) * ((p.allocations + 1) * p.edgeWeight) := by
  have hweight : p.edgeWeight = (p.instrs.map (Instr.weight p.returned)).sum :=
    List.foldr_map.symm
  have hbody : ∀ m : Method, p.bodyCost m =
      (p.allocations + 1) * ((p.allocations + 1) *
        (m.instrs.map (Instr.weight p.returned)).sum) := by
    intro m
    unfold Program.bodyCost Program.cost
    rw [List.sum_map_mul_left, List.sum_map_mul_right, Nat.mul_comm (List.sum _)]
  rw [funext hbody, hweight, List.sum_map_mul_left, List.sum_map_mul_left]
  unfold Program.instrs
  rw [List.map_flatMap, List.flatMap_def, List.sum_flatten, List.map_map]
  rfl

theorem length_add_unreached_le {reachable : List MethodId} (hnodup : reachable.Nodup)
    (hsub : ∀ m ∈ reachable, m ∈ p.identities) :
    reachable.length + p.unreached reachable ≤ 2 * p.table.methods.length := by
  have hle : reachable.length ≤ (p.identities.filter fun m => m ∈ reachable).length :=
    hnodup.length_le_of_subset fun m hm => List.mem_filter.mpr ⟨hsub m hm, decide_eq_true hm⟩
  have hsplit :=
    List.length_eq_length_filter_add (l := p.identities) fun m => decide (m ∈ reachable)
  unfold Program.unreached
  rw [Program.length_identities] at hsplit
  simp only [decide_not]
  omega

namespace Initial

variable {memo : Memo} (h : s.Initial memo)

include h

theorem coherent (t : ClassTable) : s.Coherent t memo where
  memo := h.memo.symm ▸ Memo.Same.refl t memo
  flow := by rw [h.flow]; exact FlowGraph.wellFormed_empty
  queue := h.inBounds
  pts i := by
    rw [h.flow, FlowGraph.pts_eq_of_size_le (Nat.zero_le _)]
    exact ObjSet.below_empty
  delta hmem := absurd hmem h.not_mem_delta
  indexed := h.indexed
  callee_reachable := by simp [h.edges]
  queued_reachable m hm := h.queued ▸ hm
  queued_nodup := h.queued ▸ h.nodup

theorem stocked : s.Stocked p := by
  constructor <;> simp [h.heap]

theorem potential_lt (hentries : ∀ m ∈ s.calls.reachable, m ∈ p.identities) :
    s.potential p + 1 < p.stepBound := by
  have hmethods := length_add_unreached_le h.nodup hentries
  have hdormant : s.dormant p ≤ (p.table.methods.map p.bodyCost).sum := by
    rw [← ClassTable.map_snd_keyed, List.map_map]
    refine List.sum_le_sum fun x _ => ?_
    unfold dormantCost
    split_ifs
    · exact Nat.zero_le _
    · exact Nat.le_refl _
  rw [sum_bodyCost] at hdormant
  have hpool : s.pool p = s.calls.reachable.length + p.unreached s.calls.reachable := by
    unfold pool load waitingCost
    rw [h.queue, h.flow, h.waiting, List.length_map]
    rfl
  unfold potential Program.stepBound
  rw [hpool]
  dsimp only
  omega

end Initial

/-! ## Runs -/

theorem pop?_ne_none_of_stop? {l : Limits} (h : l.stop? s = none) : s.queue.pop? ≠ none := by
  intro hpop
  have hempty := Queue.isEmpty_iff.mpr (Queue.pop?_eq_none_iff.mp hpop)
  unfold Limits.stop? at h
  rw [fault_of_stop?_eq_none h, hempty] at h
  exact nomatch h

/-- A run that may take more steps than its potential stops where something stops it. -/
theorem runUpTo_eq_iterate {l : Limits} {n : Nat} (hs : s.Coherent p.table m₀)
    (hstocked : s.Stocked p)
    (hn : s.potential p < n) :
    ∃ k ≤ s.potential p, ∃ why, l.stop? ((step p.table)^[k] s) = some why ∧
      (∀ j < k, l.stop? ((step p.table)^[j] s) = none) ∧
      runUpTo p.table l n s = (why, (step p.table)^[k] s) := by
  induction n generalizing s with
  | zero => exact absurd hn (Nat.not_lt_zero _)
  | succ n ih =>
    unfold runUpTo
    cases hstop : l.stop? s with
    | some why =>
      exact ⟨0, Nat.zero_le _, why, hstop, fun j hj => absurd hj (Nat.not_lt_zero j), rfl⟩
    | none =>
      have hlt := potential_step_lt hs hstocked.size_heap_le (pop?_ne_none_of_stop? hstop)
      obtain ⟨k, hk, why, hwhy, hbefore, hrun⟩ := ih hs.step (hstocked.step hs) (by omega)
      refine ⟨k + 1, by omega, why, hwhy, ?_, hrun⟩
      rintro (_ | j) hj
      · exact hstop
      · exact hbefore j (Nat.lt_of_succ_lt_succ hj)

end Solver

end PointsTo
