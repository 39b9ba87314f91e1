import PointsTo.Proofs.Solver.Balance
import PointsTo.Proofs.Solver.Ledger

/-!
# What operations deliver

Whatever the memory, no operation of the solver loses anything: edges, work, waiting statements,
diagnostics and reachable methods stay, a new edge lets through what its source points to already, a
method that becomes reachable is put to work once, and nothing is sent that is empty (`Delivers`).
So what a statement has achieved in its turn stays achieved (`HadTurn`), and after a list of turns
without a fault all of them have achieved what they should (`turns_deliver`).

The answers of the memory decide which objects pass the filter of an edge and which targets calls
have. They are those of the memory at the start of the run.
-/

namespace PointsTo.Solver

variable {t : ClassTable} {m₀ : Memo} {s s' s'' : Solver} {n i j o : Nat} {e : FlowEdge}
  {os : ObjSet}
  {kind : EdgeKind} {filter : Option Ty}

/-- The object has arrived at the node or is on its way there. -/
def Reaches (s : Solver) (n o : Nat) : Prop :=
  o ∈ s.flow.pts n ∨ ∃ os, .delta n os ∈ s.queue.toList ∧ o ∈ os

/-- Whether an object of a heap passes the type filter of an edge, if the memory gives the answers
that `m₀` gives. -/
def admits (t : ClassTable) (m₀ : Memo) (heap : Array Site) (filter : Option Ty) (o : Nat) : Bool :=
  match filter with
  | none => true
  | some type => ((heap[o]?).map Site.type).any fun u => Memo.answer (Memo.isSubtype t u type) m₀

theorem admits_congr {heap heap' : Array Site} (h : heap'[o]? = heap[o]?) (filter : Option Ty) :
    admits t m₀ heap' filter o = admits t m₀ heap filter o := by
  unfold admits
  rw [h]

/-- Nothing is lost from the first state to the second, and what was added is not for nothing. -/
structure Delivers (t : ClassTable) (m₀ : Memo) (s s' : Solver) : Prop extends Keeps t m₀ s s' where
  out : ∀ {n e}, e ∈ s.flow.out n → e ∈ s'.flow.out n
  carried : ∀ {n e o}, e ∈ s'.flow.out n → e ∉ s.flow.out n → o ∈ s.flow.pts n →
    admits t m₀ s'.heap e.filter o → s'.Reaches e.target o
  work : ∃ ws, s'.queue.toList = s.queue.toList ++ ws ∧
    s'.calls.reachable = s.calls.reachable ++ ws.filterMap entered? ∧ ∀ n os, .delta n os ∈ ws →
      os.isEmpty = false
  nodup : s.calls.reachable.Nodup → s'.calls.reachable.Nodup
  edges : ∀ x ∈ s.calls.edges, x ∈ s'.calls.edges
  waiting : ∀ i ∈ s.waiting, i ∈ s'.waiting
  diagnostics : ∀ d ∈ s.diagnostics, d ∈ s'.diagnostics
  fault : s'.fault = none → s.fault = none

namespace Delivers

theorem reaches (h : Delivers t m₀ s s') (hn : s.Reaches n o) : s'.Reaches n o := by
  obtain ⟨ws, hws, -⟩ := h.work
  refine hn.imp (fun ho => (h.pts n).symm ▸ ho) ?_
  rintro ⟨os, hos, ho⟩
  exact ⟨os, hws ▸ List.mem_append_left _ hos, ho⟩

theorem refl (hs : s.Coherent t m₀) : Delivers t m₀ s s :=
  { Keeps.refl hs with
    out := id
    carried := fun he hne => absurd he hne
    work := ⟨[], by simp⟩
    nodup := id
    edges := fun _ => id
    waiting := fun _ => id
    diagnostics := fun _ => id
    fault := id }

theorem trans (h : Delivers t m₀ s s') (h' : Delivers t m₀ s' s'') : Delivers t m₀ s s'' := by
  refine { h.toKeeps.trans h'.toKeeps with
    out := h'.out ∘ h.out
    carried := ?_
    work := ?_
    nodup := h'.nodup ∘ h.nodup
    edges := fun x hx => h'.edges x (h.edges x hx)
    waiting := fun i hi => h'.waiting i (h.waiting i hi)
    diagnostics := fun d hd => h'.diagnostics d (h.diagnostics d hd)
    fault := h.fault ∘ h'.fault }
  · intro n e o he hne ho hadmits
    have ho' : o ∈ s'.flow.pts n := (h.pts n).symm ▸ ho
    by_cases hmid : e ∈ s'.flow.out n
    · -- the edge came first, and what it let through stays
      refine h'.reaches (h.carried hmid hne ho ?_)
      rwa [← admits_congr (h'.heap o ((h.coherent.pts n).lt o ho'))]
    · exact h'.carried he hmid ho' hadmits
  · obtain ⟨ws, hws, hreach, hne⟩ := h.work
    obtain ⟨ws', hws', hreach', hne'⟩ := h'.work
    refine ⟨ws ++ ws', ?_, ?_, ?_⟩
    · rw [hws', hws, List.append_assoc]
    · rw [hreach', hreach, List.filterMap_append, List.append_assoc]
    · intro n os hmem
      exact (List.mem_append.mp hmem).elim (hne n os) (hne' n os)

/-- What the first state says, the second says too. -/
theorem extended (h : Delivers t m₀ s s') : s.Extends s' where
  holds hq := h.toKeeps.holds_iff.mpr hq
  due := by
    rintro q o (hq | ⟨n, os, hmem, hn, ho⟩)
    · exact Or.inl (h.toKeeps.holds_iff.mpr hq)
    · obtain ⟨ws, hws, -⟩ := h.work
      exact Or.inr ⟨n, os, hws ▸ List.mem_append_left _ hmem, h.key hn, ho⟩
  flows := by
    rintro kind a b filter ⟨i, j, hi, hj, he⟩
    exact ⟨i, j, h.key hi, h.key hj, h.out he⟩
  heap hsite := (h.heap _ (Array.getElem?_eq_some_iff.mp hsite).1).trans hsite
  waiting := h.waiting
  reachable m hm := by
    obtain ⟨ws, -, hreach, -⟩ := h.work
    exact hreach ▸ List.mem_append_left _ hm
  edges := h.edges
  diagnostics := h.diagnostics

/-- Rounds of a loop that each deliver something, if what they need goes on to hold, and what they
achieve too. -/
theorem foldl {α : Type} {f : Solver → α → Solver} {p : Solver → Prop} {q : α → Solver → Prop}
    (hp : ∀ {s s'}, Delivers t m₀ s s' → p s → p s')
    (hq : ∀ {a s s'}, Delivers t m₀ s s' → q a s → q a s')
    {l : List α} (h : ∀ s, ∀ a ∈ l, s.Coherent t m₀ → p s → Delivers t m₀ s (f s a) ∧ q a (f s a)) :
    ∀ {s}, s.Coherent t m₀ → p s → Delivers t m₀ s (l.foldl f s) ∧ ∀ a ∈ l, q a (l.foldl f s) := by
  induction l with
  | nil => exact fun hs _ => ⟨refl hs, fun a ha => absurd ha List.not_mem_nil⟩
  | cons a l ih =>
    intro s hs hps
    obtain ⟨ha, hqa⟩ := h s a List.mem_cons_self hs hps
    obtain ⟨hl, hql⟩ := ih (fun s b hb => h s b (List.mem_cons_of_mem a hb)) ha.coherent (hp ha hps)
    exact ⟨ha.trans hl, List.forall_mem_cons.mpr ⟨hq hl hqa, hql⟩⟩

end Delivers

/-- Operations that spread objects deliver them, if they send nothing empty and new edges let
through what is there. -/
theorem Spreads.delivers (h : Spreads t m₀ s s') {ws : List Work}
    (hws : s'.queue.toList = s.queue.toList ++ ws)
    (hne : ∀ w ∈ ws, ∃ n os, w = .delta n os ∧ os.isEmpty = false)
    (hout : ∀ {n e}, e ∈ s.flow.out n → e ∈ s'.flow.out n)
    (hcarried : ∀ {n e o}, e ∈ s'.flow.out n → e ∉ s.flow.out n → o ∈ s.flow.pts n →
      admits t m₀ s'.heap e.filter o → s'.Reaches e.target o) : Delivers t m₀ s s' := by
  have hnil : ws.filterMap entered? = [] := by
    refine List.filterMap_eq_nil_iff.mpr fun w hw => ?_
    obtain ⟨n, os, rfl, -⟩ := hne w hw
    rfl
  refine { h.keeps with
    out := hout
    carried := hcarried
    work := ⟨ws, hws, by rw [hnil, List.append_nil, h.calls], fun n os hmem => ?_⟩
    nodup := h.calls ▸ id
    edges := h.calls ▸ fun _ => id
    waiting := h.waiting ▸ fun _ => id
    diagnostics := h.diagnostics ▸ fun _ => id
    fault := fun hf => h.fault ▸ hf }
  obtain ⟨n', os', heq, hempty⟩ := hne _ hmem
  rwa [(Work.delta.inj heq).2]

/-! ## Sending objects -/

/-- The objects of a set that pass the type filter of an edge. -/
def admitted (t : ClassTable) (m₀ : Memo) (heap : Array Site) (filter : Option Ty) (os : ObjSet) :
    ObjSet :=
  ⟨os.ids.filter (admits t m₀ heap filter)⟩

/-- The work of sending objects to a node. -/
def shipment (t : ClassTable) (m₀ : Memo) (heap : Array Site) (j : Nat) (os : ObjSet)
    (filter : Option Ty) : List Work :=
  if (admitted t m₀ heap filter os).isEmpty then [] else [.delta j (admitted t m₀ heap filter os)]

theorem of_mem_shipment {heap : Array Site} {w : Work} (hw : w ∈ shipment t m₀ heap j os filter) :
    ∃ n os, w = .delta n os ∧ os.isEmpty = false := by
  unfold shipment at hw
  split_ifs at hw with hempty
  · exact absurd hw List.not_mem_nil
  · exact ⟨j, _, List.mem_singleton.mp hw, Bool.eq_false_iff.mpr hempty⟩

/-- Once it is queued, the work of sending objects to a node has those that pass the filter on their
way. -/
theorem reaches_of_shipment {heap : Array Site} {ws : List Work}
    (hws : s.queue.toList = ws ++ shipment t m₀ heap j os filter) (ho : o ∈ os)
    (hadmits : admits t m₀ heap filter o) :
    s.Reaches j o := by
  have hmem : o ∈ (admitted t m₀ heap filter os).ids := List.mem_filter.mpr ⟨ho, hadmits⟩
  have hne : ¬ (admitted t m₀ heap filter os).isEmpty := by
    intro hempty
    rw [ObjSet.isEmpty_iff.mp hempty] at hmem
    exact List.not_mem_nil hmem
  rw [shipment, if_neg hne] at hws
  exact Or.inr ⟨_, hws ▸ List.mem_append_right _ (List.mem_singleton_self _), hmem⟩

theorem exists_keepSubtypes_eq (type : Ty) : ∀ (l : List Nat) {s : Solver}, Memo.Same t m₀ s.memo →
    ∃ memo, keepSubtypes t type l s = (l.filter (admits t m₀ s.heap (some type)), { s with memo })
  | [], s, _ => ⟨s.memo, rfl⟩
  | o :: l, s, hm => by
    unfold keepSubtypes
    rw [List.filter_cons]
    cases ho : s.typeOf? o with
    | none =>
      obtain ⟨memo, hrest⟩ := exists_keepSubtypes_eq type l hm
      have hadmits : admits t m₀ s.heap (some type) o = false := congrArg (Option.any _) ho
      refine ⟨memo, ?_⟩
      dsimp only
      rw [hrest, hadmits]
    | some u =>
      obtain ⟨hanswer, hafter⟩ := Memo.isSubtype_settled t u type m₀ s.memo hm
      obtain ⟨memo, hrest⟩ :=
        exists_keepSubtypes_eq type l (s := (s.ask (Memo.isSubtype t u type)).2) hafter
      have hadmits : admits t m₀ s.heap (some type) o = (s.ask (Memo.isSubtype t u type)).1 :=
        (congrArg (Option.any _) ho).trans hanswer.symm
      refine ⟨memo, ?_⟩
      dsimp only
      rw [hrest, hadmits]
      rfl

theorem exists_send_eq (hm : Memo.Same t m₀ s.memo) (j : Nat) (os : ObjSet) (filter : Option Ty) :
    ∃ memo, s.send t j os filter =
      { s with memo, queue := s.queue.pushAll (shipment t m₀ s.heap j os filter) } := by
  unfold send shipment
  cases filter with
  | none =>
    have hall : os.ids.filter (admits t m₀ s.heap none) = os.ids :=
      List.filter_eq_self.mpr fun _ _ => rfl
    refine ⟨s.memo, ?_⟩
    unfold admitted
    rw [hall]
    dsimp only
    split_ifs <;> rfl
  | some type =>
    obtain ⟨memo, hkeep⟩ := exists_keepSubtypes_eq type os.ids hm
    refine ⟨memo, ?_⟩
    dsimp only
    rw [hkeep]
    show (if (admitted t m₀ s.heap (some type) os).isEmpty then _ else _) = _
    split_ifs <;> rfl

theorem exists_addEdge_eq (hm : Memo.Same t m₀ s.memo) (h : (i, ⟨kind, j, filter⟩) ∉ s.flow.edges) :
    ∃ memo events, s.addEdge t kind i j filter =
      { s with
        memo, events
        flow := (s.flow.addEdge kind i j filter).2
        queue := s.queue.pushAll (shipment t m₀ s.heap j (s.flow.pts i) filter) } := by
  have hfresh := FlowGraph.addEdge_fresh_iff.mpr h
  have hpts := FlowGraph.pts_addEdge s.flow kind i j filter i
  unfold addEdge
  generalize s.flow.addEdge kind i j filter = g at hfresh hpts ⊢
  obtain ⟨fresh, flow⟩ := g
  subst hfresh
  dsimp only at hpts ⊢
  rw [if_pos rfl, ← hpts]
  split_ifs with hempty
  · have hnone : (flow.pts i).ids = [] := ObjSet.isEmpty_iff.mp hempty
    unfold shipment admitted
    rw [hnone]
    exact ⟨s.memo, s.events.push (.flowEdge kind i j), rfl⟩
  · obtain ⟨memo, hsend⟩ :=
      exists_send_eq (s := { s with flow }.tell (.flowEdge kind i j)) hm j (flow.pts i) filter
    exact ⟨memo, s.events.push (.flowEdge kind i j), hsend⟩

/-! ## Operations that spread objects -/

section Operations

variable (hs : s.Coherent t m₀)

include hs

theorem ask_delivers {α : Type} {x : StateM Memo α} (hx : Memo.Settled (Memo.Same t) x) :
    Delivers t m₀ s (s.ask x).2 :=
  (ask_spreads hs hx).delivers (List.append_nil _).symm (by simp) id fun he hne => absurd he hne

theorem tell_delivers (x : Event) : Delivers t m₀ s (s.tell x) :=
  (tell_spreads hs x).delivers (List.append_nil _).symm (by simp) id fun he hne => absurd he hne

theorem pointer_delivers (q : Pointer) : Delivers t m₀ s (s.pointer q).2 := by
  have hout : ∀ n, (s.pointer q).2.flow.out n = s.flow.out n := FlowGraph.out_intern s.flow q
  refine (pointer_spreads hs q).delivers (List.append_nil _).symm (by simp) (fun he => ?_)
    fun he hne => ?_
  · rwa [hout]
  · rw [hout] at he
    exact absurd he hne

theorem enqueue_delivers (hi : i < s.flow.size) (hos : os.Below s.heap.size)
    (hne : os.isEmpty = false) :
    Delivers t m₀ s (s.enqueue i os) :=
  (enqueue_spreads hs hi hos).delivers (Queue.toList_push hs.queue _)
    (List.forall_mem_singleton.mpr ⟨i, os, rfl, hne⟩) id fun he hne => absurd he hne

theorem due_enqueue {q : Pointer} (hi : s.flow.key? i = some q) (ho : o ∈ os) :
    (s.enqueue i os).Due q o :=
  Or.inr ⟨i, os, Queue.toList_push hs.queue _ ▸ List.mem_append_right _ (List.mem_singleton_self _),
    hi, ho⟩

theorem send_delivers (hj : j < s.flow.size) (hos : os.Below s.heap.size) (filter : Option Ty) :
    Delivers t m₀ s (s.send t j os filter) ∧
      ∀ o ∈ os, admits t m₀ s.heap filter o → (s.send t j os filter).Reaches j o := by
  have hspreads := send_spreads hs hj hos filter
  obtain ⟨memo, heq⟩ := exists_send_eq hs.memo j os filter
  have hlist := Queue.toList_pushAll hs.queue (shipment t m₀ s.heap j os filter)
  rw [heq] at hspreads ⊢
  exact ⟨hspreads.delivers hlist (fun w => of_mem_shipment) id fun he hne => absurd he hne,
    fun o ho hadmits => reaches_of_shipment hlist ho hadmits⟩

theorem foldl_send_delivers {es : List FlowEdge} (hes : ∀ e ∈ es, e.target < s.flow.size)
    (hos : os.Below s.heap.size) :
    Delivers t m₀ s (es.foldl (fun s e => s.send t e.target os e.filter) s) ∧
      ∀ e ∈ es, ∀ o ∈ os, admits t m₀ s.heap e.filter o →
        (es.foldl (fun s e => s.send t e.target os e.filter) s).Reaches e.target o := by
  -- the objects that are sent stay the same, and so does what they pass
  refine Delivers.foldl (p := fun s' => Delivers t m₀ s s')
    (q := fun (e : FlowEdge) s' => ∀ o ∈ os, admits t m₀ s.heap e.filter o → s'.Reaches e.target o)
    (fun h h₀ => h₀.trans h) (fun h hq o ho hadmits => h.reaches (hq o ho hadmits))
    (fun s' e he hs' h₀ => ?_) hs
    (.refl hs)
  have hlt : e.target < s'.flow.size := by
    obtain ⟨q, hq⟩ := FlowGraph.exists_key? (hes e he)
    exact FlowGraph.lt_of_key? (h₀.key hq)
  obtain ⟨hsend, hreaches⟩ :=
    send_delivers hs' hlt ⟨hos.nodup, fun o ho => h₀.lt_size (hos.lt o ho)⟩ e.filter
  refine ⟨hsend, fun o ho hadmits => hreaches o ho ?_⟩
  rwa [admits_congr (h₀.heap o (hos.lt o ho))]

/-- Objects that join what a node points to are sent along its edges. -/
theorem arrive_delivers {p : Nat} (hp : p < s.flow.size) (hos : os.Below s.heap.size) :
    Delivers t m₀ (s.join p (os.diff (s.flow.pts p))) (s.arrive t p (os.diff (s.flow.pts p))) ∧
      ∀ e ∈ s.flow.out p, ∀ o ∈ os.diff (s.flow.pts p), admits t m₀ s.heap e.filter o →
        (s.arrive t p (os.diff (s.flow.pts p))).Reaches e.target o := by
  have hjoin := hs.join hp hos
  obtain ⟨hsends, hsent⟩ :=
    foldl_send_delivers hjoin (fun e he => hjoin.flow.target_lt he) (hos.diff (s.flow.pts p))
  refine ⟨hsends, fun e he => hsent e ?_⟩
  exact (FlowGraph.out_addPts ..).symm ▸ he

theorem addEdge_delivers (hi : i < s.flow.size) (hj : j < s.flow.size) (kind : EdgeKind)
    (filter : Option Ty) :
    Delivers t m₀ s (s.addEdge t kind i j filter) ∧
      ⟨kind, j, filter⟩ ∈ (s.addEdge t kind i j filter).flow.out i := by
  by_cases h : (i, ⟨kind, j, filter⟩) ∈ s.flow.edges
  · have heq : s.addEdge t kind i j filter = s := by
      unfold addEdge
      rw [FlowGraph.addEdge_of_mem h]
      rfl
    rw [heq]
    exact ⟨.refl hs, hs.flow.mem_edges_iff.mp h⟩
  · have hspreads := addEdge_spreads hs hi hj kind filter
    obtain ⟨memo, events, heq⟩ := exists_addEdge_eq hs.memo h
    have hlist := Queue.toList_pushAll hs.queue (shipment t m₀ s.heap j (s.flow.pts i) filter)
    have hout : ∀ {n e}, e ∈ (s.flow.addEdge kind i j filter).2.out n ↔ _ :=
      hs.flow.mem_out_addEdge hi
    rw [heq] at hspreads ⊢
    refine ⟨hspreads.delivers hlist (fun w => of_mem_shipment) (fun he => hout.mpr (Or.inl he)) ?_,
      hout.mpr (Or.inr ⟨rfl, rfl⟩)⟩
    intro n e o he hne ho hadmits
    rcases hout.mp he with he | ⟨rfl, rfl⟩
    · exact absurd he hne
    · exact reaches_of_shipment hlist ho hadmits

theorem flows_addEdge {a b : Pointer} (hi : s.flow.key? i = some a) (hj : s.flow.key? j = some b)
    (kind : EdgeKind)
    (filter : Option Ty) :
    Delivers t m₀ s (s.addEdge t kind i j filter) ∧
      (s.addEdge t kind i j filter).Flows kind a b filter := by
  obtain ⟨he, hmem⟩ :=
    addEdge_delivers hs (FlowGraph.lt_of_key? hi) (FlowGraph.lt_of_key? hj) kind filter
  exact ⟨he, i, j, he.key hi, he.key hj, hmem⟩

theorem connect_delivers (kind : EdgeKind) (a b : Pointer) (filter : Option Ty) :
    Delivers t m₀ s (s.connect t kind a b filter) ∧
      (s.connect t kind a b filter).Flows kind a b filter := by
  have ha := pointer_delivers hs a
  have hb := pointer_delivers ha.coherent b
  obtain ⟨he, hflows⟩ :=
    flows_addEdge hb.coherent (hb.key (key?_pointer s a)) (key?_pointer _ b) kind filter
  exact ⟨(ha.trans hb).trans he, hflows⟩

theorem passArguments_delivers (args formals : List Var) :
    Delivers t m₀ s (passArguments t args formals s) ∧ ∀ x ∈ args.zip formals,
      (passArguments t args formals s).Flows .parameterPassing (.var x.1) (.var x.2) none :=
  Delivers.foldl (p := fun _ => True)
    (q := fun (x : Var × Var) s => s.Flows .parameterPassing (.var x.1) (.var x.2) none)
    (fun _ => id) (fun h => h.extended.flows) (fun _ _ _ hs _ => connect_delivers hs ..) hs trivial

theorem passResult_delivers (result : Option Var) (returned : List Var) :
    Delivers t m₀ s (passResult t result returned s) ∧ ∀ r ∈ result, ∀ v ∈ returned,
      (passResult t result returned s).Flows .ret (.var v) (.var r) none := by
  unfold passResult
  cases result with
  | none => exact ⟨.refl hs, by rintro r ⟨⟩⟩
  | some r =>
    have hr := pointer_delivers hs (.var r)
    have hround : ∀ (s' : Solver) (v : Var), s'.Coherent t m₀ →
        s'.flow.key? (s.pointer (.var r)).1 = some (.var r) →
        Delivers t m₀ s' ((s'.pointer (.var v)).2.addEdge t .ret (s'.pointer (.var v)).1
          (s.pointer (.var r)).1 none) ∧
        ((s'.pointer (.var v)).2.addEdge t .ret (s'.pointer (.var v)).1
          (s.pointer (.var r)).1 none).Flows
          .ret (.var v) (.var r) none := by
      intro s' v hs' hkey
      have hv := pointer_delivers hs' (.var v)
      obtain ⟨he, hflows⟩ :=
        flows_addEdge hv.coherent (key?_pointer s' (.var v)) (hv.key hkey) .ret none
      exact ⟨hv.trans he, hflows⟩
    obtain ⟨hfold, hflows⟩ :=
      Delivers.foldl (l := returned) (q := fun v s' => s'.Flows .ret (.var v) (.var r) none)
      (fun h => h.key) (fun h => h.extended.flows) (fun s' v _ => hround s' v) hr.coherent
      (key?_pointer s _)
    refine ⟨hr.trans hfold, ?_⟩
    rintro _ ⟨⟩
    exact hflows

theorem receive_delivers {recv : Option Nat} (hrecv : ∀ o ∈ recv, o < s.heap.size)
    (this : Option Var) :
    Delivers t m₀ s (s.receive recv this) ∧
      ∀ o ∈ recv, ∀ v ∈ this, (s.receive recv this).Due (.var v) o := by
  cases recv with
  | none => exact ⟨.refl hs, by rintro o ⟨⟩⟩
  | some o =>
    cases this with
    | none => exact ⟨.refl hs, by rintro o - v ⟨⟩⟩
    | some this =>
      have hp := pointer_delivers hs (.var this)
      have hkey := key?_pointer s (.var this)
      refine ⟨hp.trans (enqueue_delivers hp.coherent (FlowGraph.lt_of_key? hkey)
        (ObjSet.below_singleton ?_) rfl), ?_⟩
      · exact hrecv o rfl
      · rintro _ ⟨⟩ _ ⟨⟩
        exact due_enqueue hp.coherent hkey (List.mem_singleton_self o)

/-! ## Operations that do more than spread objects -/

theorem fail_delivers (f : Fault) : Delivers t m₀ s (s.fail f) :=
  { Delivers.refl hs with
    toKeeps := fail_keeps hs f
    fault := fun hf => absurd hf (Option.some_ne_none f) }

theorem wait_delivers (i : Instr) : Delivers t m₀ s { s with waiting := s.waiting ++ [i] } :=
  { Delivers.refl hs with
    toKeeps := wait_keeps hs i
    waiting := fun _ hi => List.mem_append_left _ hi }

theorem diagnose_delivers (d : Diagnostic) :
    Delivers t m₀ s { s with diagnostics := s.diagnostics.push d } :=
  { Delivers.refl hs with
    toKeeps := diagnose_keeps hs d
    diagnostics := fun _ hd => Array.mem_push_of_mem _ hd }

theorem object_delivers (site : Site) : Delivers t m₀ s (s.object site).2 := by
  have hkeeps := object_keeps hs site
  obtain ⟨heap, heq⟩ := s.object_frame site
  rw [heq] at hkeeps ⊢
  exact { Delivers.refl hs with
    toKeeps := hkeeps
    carried := fun he hne => absurd he hne }

theorem noteCall_delivers (c : Invocation) (callee : Method) :
    Delivers t m₀ s (s.noteCall c callee) := by
  have hkeeps := noteCall_keeps hs c callee
  by_cases h : (s.calls.edgeKind? c.stmt callee.id).isSome
  · rw [noteCall_of_isSome h]
    exact .refl hs
  · rw [noteCall_of_not_isSome h] at hkeeps ⊢
    refine { Delivers.refl hs with
      toKeeps := hkeeps
      carried := fun he hne => absurd he hne
      work := ⟨_, Queue.toList_pushAll hs.queue _, ?_, ?_⟩
      nodup := ?_
      edges := fun _ hx => List.mem_append_left _ hx }
    · split_ifs
      · exact (List.append_nil _).symm
      · rfl
    · intro n os hmem
      split_ifs at hmem <;> simp at hmem
    · dsimp only
      split_ifs with hold
      · exact id
      · exact fun hnodup => List.concat_eq_append ▸ hnodup.concat hold

end Operations

/-! ## What turns achieve -/

/-- The call is connected with a method that it runs. -/
structure Connected (s : Solver) (d : Dispatch) (callee : Method) : Prop where
  edge : ∃ x ∈ s.calls.edges, x.site = d.site.stmt ∧ x.callee = callee.id
  reachable : callee.id ∈ s.calls.reachable
  receiver : ∀ o ∈ d.object, ∀ this ∈ callee.receiver, s.Due (.var this) o
  arity : d.site.args.length = callee.formals.length
  argument : ∀ x ∈ d.site.args.zip callee.formals, s.Flows .parameterPassing (.var x.1)
    (.var x.2) none
  result : ∀ r ∈ d.site.call.result, ∀ v ∈ callee.returned, s.Flows .ret (.var v) (.var r) none

/-- The call has looked for its target: either there is none and a diagnostic says so, or the call
is connected with it. -/
inductive Dispatched (t : ClassTable) (m₀ : Memo) (s : Solver) (d : Dispatch) : Prop
  | unresolved {e : ResolutionError} (htarget : d.target t m₀ s.heap = .ok (.error e))
    (h : ⟨d.site.stmt, d.object, e⟩ ∈ s.diagnostics)
  | resolved {m : MethodId} {callee : Method} (htarget : d.target t m₀ s.heap = .ok (.ok m))
    (hm : t.method? m = some callee) (h : s.Connected d callee)

/-- The statement has been performed for an object at its base. -/
def Fired (t : ClassTable) (m₀ : Memo) (s : Solver) (o : Nat) : Instr → Prop
  | .load x _ f => s.Flows .instanceLoad (.field o f) (.var x) none
  | .store _ f y => s.Flows .instanceStore (.var y) (.field o f) none
  | .arrayLoad x _ => s.Flows .arrayLoad (.elem o) (.var x) none
  | .arrayStore _ y => s.Flows .arrayStore (.var y) (.elem o) none
  | .call c => s.Dispatched t m₀ ⟨c, some o⟩
  | _ => True

/-- The statement of a method that was entered has been performed: its object is allocated and
reaches its variable, its edge is there, it waits at its base, or it has looked for its target. -/
def Wired (t : ClassTable) (m₀ : Memo) (s : Solver) (i : Instr) : Prop :=
  match i with
  | .new site => ∃ o, s.heap[o]? = some site ∧ s.Due (.var site.lhs) o
  | .assign x y => Ty.pointerLike x.type → s.Flows .localAssign (.var y) (.var x) none
  | .cast x y type => Ty.pointerLike x.type → s.Flows .cast (.var y) (.var x) (some type)
  | .staticLoad x f => Ty.pointerLike f.type → s.Flows .staticLoad (.static f) (.var x) none
  | .staticStore f y => Ty.pointerLike f.type → s.Flows .staticStore (.var y) (.static f) none
  | .load _ b f => Ty.pointerLike f.type → i ∈ s.waitingAt b
  | .store b f _ => Ty.pointerLike f.type → i ∈ s.waitingAt b
  | .arrayLoad x b => Ty.pointerLike x.type → i ∈ s.waitingAt b
  | .arrayStore b y => Ty.pointerLike y.type → i ∈ s.waitingAt b
  | .call c =>
    if c.call.kind = .static then s.Dispatched t m₀ ⟨c, none⟩ else ∃ v ∈ c.call.recv,
      i ∈ s.waitingAt v
  | .ret => True

/-- The statement has been performed in its turn. -/
def HadTurn (t : ClassTable) (m₀ : Memo) (s : Solver) (u : Turn) : Prop :=
  match u.object with
  | some o => s.Fired t m₀ o u.instr
  | none => s.Wired t m₀ u.instr

namespace Extends

variable (h : s.Extends s')

include h

theorem heap_eq (ho : o < s.heap.size) : s'.heap[o]? = s.heap[o]? := by
  rw [Array.getElem?_eq_getElem ho]
  exact h.heap (Array.getElem?_eq_getElem ho)

theorem connected {d : Dispatch} {callee : Method} (hd : s.Connected d callee) :
    s'.Connected d callee where
  edge := by
    obtain ⟨x, hx, hedge⟩ := hd.edge
    exact ⟨x, h.edges x hx, hedge⟩
  reachable := h.reachable _ hd.reachable
  receiver o ho this hthis := h.due (hd.receiver o ho this hthis)
  arity := hd.arity
  argument x hx := h.flows (hd.argument x hx)
  result r hr v hv := h.flows (hd.result r hr v hv)

theorem dispatched {d : Dispatch} (hlt : ∀ o ∈ d.object, o < s.heap.size)
    (hd : s.Dispatched t m₀ d) :
    s'.Dispatched t m₀ d := by
  have htarget : d.target t m₀ s'.heap = d.target t m₀ s.heap :=
    Dispatch.target_congr fun o ho => h.heap_eq (hlt o ho)
  cases hd with
  | unresolved he hmem => exact .unresolved (htarget.trans he) (h.diagnostics _ hmem)
  | resolved hok hm hd => exact .resolved (htarget.trans hok) hm (h.connected hd)

theorem fired {i : Instr} (ho : o < s.heap.size) (hi : s.Fired t m₀ o i) : s'.Fired t m₀ o i := by
  cases i with
  | load | store | arrayLoad | arrayStore => exact h.flows hi
  | call c =>
    refine h.dispatched ?_ hi
    rintro _ ⟨⟩
    exact ho
  | _ => trivial

theorem mem_waitingAt {i : Instr} {v : Var} (hi : i ∈ s.waitingAt v) : i ∈ s'.waitingAt v :=
  Solver.mem_waitingAt.mpr ((Solver.mem_waitingAt.mp hi).imp_left (h.waiting i))

theorem wired {i : Instr} (hi : s.Wired t m₀ i) : s'.Wired t m₀ i := by
  cases i with
  | new site =>
    obtain ⟨o, ho, hdue⟩ := hi
    exact ⟨o, h.heap ho, h.due hdue⟩
  | assign | cast | staticLoad | staticStore => exact fun hlike => h.flows (hi hlike)
  | load | store | arrayLoad | arrayStore => exact fun hlike => h.mem_waitingAt (hi hlike)
  | call c =>
    unfold Wired at hi ⊢
    dsimp only at hi ⊢
    split_ifs at hi ⊢
    · exact h.dispatched (by rintro _ ⟨⟩) hi
    · obtain ⟨v, hv, hi⟩ := hi
      exact ⟨v, hv, h.mem_waitingAt hi⟩
  | ret => trivial

theorem hadTurn {u : Turn} (hlt : ∀ o ∈ u.object, o < s.heap.size) (hu : s.HadTurn t m₀ u) :
    s'.HadTurn t m₀ u := by
  obtain ⟨i, object⟩ := u
  cases object with
  | some o => exact h.fired (hlt o rfl) hu
  | none => exact h.wired hu

end Extends

/-! ## Turns -/

section Turns

variable (hs : s.Coherent t m₀)

include hs

theorem link_delivers {d : Dispatch} (hlt : ∀ o ∈ d.object, o < s.heap.size) (callee : Method) :
    Delivers t m₀ s (s.link t d.site d.object callee) ∧
      ((s.link t d.site d.object callee).fault = none →
        (s.link t d.site d.object callee).Connected d callee) := by
  have hnote := noteCall_delivers hs d.site callee
  obtain ⟨hthis, hdue⟩ :=
    receive_delivers hnote.coherent (fun o ho => hnote.lt_size (hlt o ho)) callee.receiver
  rw [link_eq_ite]
  split_ifs with harity
  · exact ⟨(hnote.trans hthis).trans (fail_delivers hthis.coherent _),
      fun hf => absurd hf (Option.some_ne_none _)⟩
  · obtain ⟨hargs, hargument⟩ := passArguments_delivers hthis.coherent d.site.args callee.formals
    obtain ⟨hret, hresult⟩ := passResult_delivers hargs.coherent d.site.call.result callee.returned
    have hafter := (hthis.trans hargs).trans hret
    refine ⟨hnote.trans hafter, fun _ => ?_⟩
    refine ⟨?_, ?_, fun o ho v hv => (hargs.trans hret).extended.due (hdue o ho v hv),
      not_ne_iff.mp harity,
      fun x hx => hret.extended.flows (hargument x hx), hresult⟩
    · obtain ⟨x, hx, hedge⟩ := exists_edge_noteCall hs.indexed d.site callee
      exact ⟨x, hafter.edges x hx, hedge⟩
    · exact hafter.extended.reachable _ ((mem_reachable_noteCall hs).mpr (Or.inr rfl))

theorem dispatch_delivers {d : Dispatch} (hlt : ∀ o ∈ d.object, o < s.heap.size) :
    Delivers t m₀ s (s.dispatch t d.site d.object) ∧
      ((s.dispatch t d.site d.object).fault = none →
        (s.dispatch t d.site d.object).Dispatched t m₀ d) := by
  have hsettled := d.site.call.target_settled t (d.object.bind s.typeOf?)
  have htarget : d.target t m₀ s.heap =
      (s.ask (d.site.call.target t (d.object.bind s.typeOf?))).1 :=
    (hsettled m₀ s.memo hs.memo).1.symm
  have hask := ask_delivers hs hsettled
  unfold dispatch
  dsimp only
  generalize s.ask (d.site.call.target t (d.object.bind s.typeOf?)) = x at htarget hask ⊢
  obtain ⟨target, s₁⟩ := x
  dsimp only at htarget hask ⊢
  -- the target stays the same while the call is noted
  have hstays : ∀ {s'}, Delivers t m₀ s s' → d.target t m₀ s'.heap = target := fun h =>
    (Dispatch.target_congr fun o ho => h.heap o (hlt o ho)).trans htarget
  cases target with
  | error f =>
    exact ⟨hask.trans (fail_delivers hask.coherent f), fun hf => absurd hf (Option.some_ne_none f)⟩
  | ok r =>
    cases r with
    | error e =>
      have hdiagnose := hask.trans (diagnose_delivers hask.coherent ⟨d.site.stmt, d.object, e⟩)
      unfold Solver.unresolved
      dsimp only
      split_ifs
      · exact ⟨hdiagnose, fun _ => .unresolved (hstays hdiagnose) Array.mem_push_self⟩
      · have htell := hdiagnose.trans (tell_delivers hdiagnose.coherent (.unresolved d.site.stmt e))
        exact ⟨htell, fun _ => .unresolved (hstays htell) Array.mem_push_self⟩
    | ok m =>
      dsimp only
      cases hm : t.method? m with
      | none =>
        exact ⟨hask.trans (fail_delivers hask.coherent _),
          fun hf => absurd hf (Option.some_ne_none _)⟩
      | some callee =>
        obtain ⟨hlink, hconnected⟩ :=
          link_delivers hask.coherent (fun o ho => hask.lt_size (hlt o ho)) callee
        exact ⟨hask.trans hlink, fun hf => .resolved (hstays (hask.trans hlink)) hm (hconnected hf)⟩

theorem fire_delivers (ho : o < s.heap.size) (i : Instr) :
    Delivers t m₀ s (s.fire t o i) ∧ ((s.fire t o i).fault = none →
      (s.fire t o i).Fired t m₀ o i) := by
  unfold fire
  split_ifs with hf
  · exact ⟨.refl hs, fun hno => absurd hno (Option.isSome_iff_ne_none.mp hf)⟩
  cases i with
  | load | store | arrayLoad | arrayStore => exact (connect_delivers hs ..).imp_right fun h _ => h
  | call c =>
    refine dispatch_delivers hs (d := ⟨c, some o⟩) ?_
    rintro _ ⟨⟩
    exact ho
  | _ => exact ⟨.refl hs, fun _ => trivial⟩

theorem perform_delivers {i : Instr} (hi : i.waitsAt? = none) :
    Delivers t m₀ s (s.perform t i) ∧ ((s.perform t i).fault = none →
      (s.perform t i).Wired t m₀ i) := by
  unfold perform
  split_ifs with hf
  · exact ⟨.refl hs, fun hno => absurd hno (Option.isSome_iff_ne_none.mp hf)⟩
  cases i with
  | new site =>
    have hp := pointer_delivers hs (.var site.lhs)
    have ho := object_delivers hp.coherent site
    have hkey := ho.key (key?_pointer s (.var site.lhs))
    have hsite : ((s.pointer (.var site.lhs)).2.object site).2.heap[
        ((s.pointer (.var site.lhs)).2.object site).1]? = some site :=
          getElem?_heap_object.mpr (Or.inr ⟨rfl, rfl⟩)
    have hsend := enqueue_delivers ho.coherent (FlowGraph.lt_of_key? hkey)
      (ObjSet.below_singleton (Array.getElem?_eq_some_iff.mp hsite).1) rfl
    exact ⟨(hp.trans ho).trans hsend, fun _ =>
      ⟨_, hsite, due_enqueue ho.coherent hkey (List.mem_singleton_self _)⟩⟩
  | assign | cast | staticLoad | staticStore =>
    dsimp only
    split_ifs with hlike
    · exact (connect_delivers hs ..).imp_right fun h _ _ => h
    · exact ⟨.refl hs, fun _ h => absurd h hlike⟩
  | load | store | arrayLoad | arrayStore =>
    unfold Instr.waitsAt? at hi
    dsimp only at hi ⊢
    split_ifs at hi ⊢ with hlike
    exact ⟨.refl hs, fun _ h => absurd h hlike⟩
  | call c =>
    unfold Instr.waitsAt? at hi
    dsimp only at hi ⊢
    split_ifs at hi ⊢ with hstatic
    · refine (dispatch_delivers hs (d := ⟨c, none⟩) (by rintro _ ⟨⟩)).imp_right fun h hno => ?_
      unfold Wired
      dsimp only
      rw [if_pos hstatic]
      exact h hno
    · rw [hi]
      exact ⟨fail_delivers hs _, fun hno => absurd hno (Option.some_ne_none _)⟩
  | ret => exact ⟨.refl hs, fun _ => trivial⟩

omit hs in
theorem wired_of_mem_waitingAt {i : Instr} {v : Var} (hi : i.waitsAt? = some v)
    (hmem : i ∈ s.waitingAt v) :
    s.Wired t m₀ i := by
  cases i with
  | load | store | arrayLoad | arrayStore =>
    intro _
    unfold Instr.waitsAt? at hi
    dsimp only at hi
    split_ifs at hi
    obtain rfl := Option.some.inj hi
    exact hmem
  | call c =>
    unfold Instr.waitsAt? at hi
    dsimp only at hi
    split_ifs at hi with hstatic
    unfold Wired
    dsimp only
    rw [if_neg hstatic]
    exact ⟨v, hi, hmem⟩
  | _ => cases hi

theorem prepare_delivers (i : Instr) :
    Delivers t m₀ s (s.prepare t i) ∧ ((s.prepare t i).fault = none →
      (s.prepare t i).Wired t m₀ i) := by
  unfold prepare
  cases hi : i.waitsAt? with
  | none => exact perform_delivers hs hi
  | some v =>
    dsimp only
    split_ifs with hf
    · exact ⟨.refl hs, fun hno => absurd hno (Option.isSome_iff_ne_none.mp hf)⟩
    · have hp := pointer_delivers hs (.var v)
      refine ⟨hp.trans (wait_delivers hp.coherent i),
        fun _ => wired_of_mem_waitingAt hi (mem_waitingAt.mpr ⟨?_, ?_⟩)⟩
      · exact List.mem_append_right _ (List.mem_singleton_self i)
      · exact Instr.base?_of_waitsAt? hi

/-- A turn delivers what it should, unless there is a fault. -/
theorem turn_delivers {u : Turn} (hlt : ∀ o ∈ u.object, o < s.heap.size) :
    Delivers t m₀ s (s.turn t u) ∧ ((s.turn t u).fault = none → (s.turn t u).HadTurn t m₀ u) := by
  obtain ⟨i, object⟩ := u
  cases object with
  | some o => exact fire_delivers hs (hlt o rfl) i
  | none => exact prepare_delivers hs i

/-- A list of turns delivers what each of them should, unless there is a fault. -/
theorem turns_deliver {us : List Turn} (hlt : ∀ u ∈ us, ∀ o ∈ u.object, o < s.heap.size) :
    Delivers t m₀ s (us.foldl (turn t) s) ∧
      ((us.foldl (turn t) s).fault = none → ∀ u ∈ us, (us.foldl (turn t) s).HadTurn t m₀ u) := by
  have hround : ∀ (s' : Solver), ∀ u ∈ us, s'.Coherent t m₀ →
      (∀ u ∈ us, ∀ o ∈ u.object, o < s'.heap.size) →
      Delivers t m₀ s' (s'.turn t u) ∧ (∀ o ∈ u.object, o < (s'.turn t u).heap.size) ∧
        ((s'.turn t u).fault = none → (s'.turn t u).HadTurn t m₀ u) := by
    intro s' u hu hs' hlt'
    obtain ⟨hturn, hhad⟩ := turn_delivers hs' (hlt' u hu)
    exact ⟨hturn, fun o ho => hturn.lt_size (hlt' u hu o ho), hhad⟩
  obtain ⟨h, hturns⟩ := Delivers.foldl
    (q := fun u s' => (∀ o ∈ u.object, o < s'.heap.size) ∧ (s'.fault = none → s'.HadTurn t m₀ u))
    (fun h hlt u hu o ho => h.lt_size (hlt u hu o ho))
    (fun h hu => ⟨fun o ho => h.lt_size (hu.1 o ho),
      fun hf => h.extended.hadTurn hu.1 (hu.2 (h.fault hf))⟩)
    hround hs hlt
  exact ⟨h, fun hf u hu => (hturns u hu).2 hf⟩

end Turns

end PointsTo.Solver
