import Mathlib.Data.List.Basic
import PointsTo.Proofs.Solver.Statement

/-!
# A step as a list of effects

A step of the solver takes a piece of work, lets the objects in it arrive, and then applies a list
of effects that can be read off the statements concerned and the state before them. This holds
because effects change neither the types of objects nor what variables point to (`Sees`), and only
the statements of methods that become reachable are put to wait.

1. `perform_eq` and `enter_eq`: what is done with a statement and with a method that becomes
   reachable.
2. `propagate_eq`: what is done with objects that arrive. `arrive` is the part before the effects.
3. `exists_begins`: a step begins in one of four ways (`Begins`), and effects follow.
-/

namespace PointsTo.Solver

/-- The objects at a variable. -/
def objectsAt (s : Solver) (v : Var) : List Nat := (s.flow.pts (s.flow.intern (.var v)).1).ids

/-- A statement of a method that becomes reachable, with the objects at its base. -/
def effectsOf (t : ClassTable) (s : Solver) (i : Instr) : List Effect :=
  i.effects t ++ (i.waitsAt?.toList.flatMap s.objectsAt).flatMap
    fun o => i.effectsOn t o (s.typeOf? o)

variable {t : ClassTable} {s : Solver} {o : Nat} {i : Instr} {v : Var} {e : Effect}

/-! ## What effects leave alone -/

theorem mem_objectsAt_iff (h : s.flow.WellFormed) : o ∈ s.objectsAt v ↔ s.Holds (.var v) o := by
  show o ∈ s.flow.pts (s.flow.intern (.var v)).1 ↔ _
  rw [← FlowGraph.pts_intern s.flow (.var v),
    ← (h.intern _).holds_iff (FlowGraph.key?_intern_self s.flow (.var v))]
  exact FlowGraph.holds_intern

theorem mem_objectsAt (hs : s.Proper t) : o ∈ s.objectsAt v ↔ s.Holds (.var v) o :=
  mem_objectsAt_iff hs.flow

/-- The objects at a variable stay as long as nodes keep their keys and what they point to. -/
theorem objectsAt_congr {s' : Solver} (h : s'.flow.WellFormed)
    (hpts : ∀ n, s'.flow.pts n = s.flow.pts n)
    (hkey : ∀ {n q}, s.flow.key? n = some q → s'.flow.key? n = some q) (v : Var) :
    s'.objectsAt v = s.objectsAt v := by
  unfold objectsAt
  rw [hpts]
  cases hv : s.flow.find? (.var v) with
  | some n =>
    have hfind := h.find?_eq (hkey (FlowGraph.key?_of_find? hv))
    rw [FlowGraph.intern_of_find? hv, FlowGraph.intern_of_find? hfind]
  | none =>
    -- the node of the variable is not among the nodes of before, and these are all that point to
    -- anything
    have hge : s.flow.size ≤ (s'.flow.intern (.var v)).1 := by
      by_contra hlt
      obtain ⟨q, hq⟩ := FlowGraph.exists_key? (Nat.lt_of_not_le hlt)
      have hold := (FlowGraph.key?_intern (k := .var v)).mpr (Or.inl (hkey hq))
      have hvar : some q = some (.var v) :=
        hold.symm.trans (FlowGraph.key?_intern_self s'.flow (.var v))
      exact FlowGraph.key?_ne_of_find?_eq_none hv _ (hq.trans hvar)
    rw [FlowGraph.intern_of_find?_eq_none hv, FlowGraph.pts_eq_of_size_le hge,
      FlowGraph.pts_eq_of_size_le (Nat.le_refl _)]

theorem objectsAt_apply (hs : s.Proper t) (e : Effect) :
    (s.apply t e).objectsAt v = s.objectsAt v := by
  cases hf : s.fault with
  | some f => rw [apply_of_fault_eq_some hf]
  | none =>
    obtain ⟨memo, events, -, heq⟩ := apply_eq hs hf e
    rw [heq]
    exact objectsAt_congr (flowAfter_wellFormed hs.flow e) (fun _ => pts_flowAfter ..)
      (fun hn => (key?_flowAfter_of_lt (FlowGraph.lt_of_key? hn) e).trans hn) v

theorem waiting_apply (hs : s.Proper t) (he : ∀ i, e ≠ .wait i) :
    (s.apply t e).waiting = s.waiting := by
  cases hf : s.fault with
  | some f => rw [apply_of_fault_eq_some hf]
  | none =>
    obtain ⟨memo, events, -, heq⟩ := apply_eq hs hf e
    rw [heq]
    cases e with
    | wait i => exact absurd rfl (he i)
    | _ => rfl

/-- Objects keep their types, and variables their objects. -/
structure Sees (s₀ s : Solver) : Prop where
  heap : s₀.heap.size ≤ s.heap.size
  types : ∀ o < s₀.heap.size, s.typeOf? o = s₀.typeOf? o
  objects : ∀ v, s.objectsAt v = s₀.objectsAt v

theorem Sees.refl (s : Solver) : s.Sees s := ⟨Nat.le_refl _, fun _ _ => rfl, fun _ => rfl⟩

theorem Sees.apply {s₀ : Solver} (h : s₀.Sees s) (hs : s.Proper t) (e : Effect) :
    s₀.Sees (s.apply t e) where
  heap := Nat.le_trans h.heap (size_heap_le_apply hs e)
  types o ho := (typeOf?_apply hs (Nat.lt_of_lt_of_le ho h.heap) e).trans (h.types o ho)
  objects v := (objectsAt_apply hs e).trans (h.objects v)

/-- A fold whose every part is a list of effects is a list of effects. What the parts rely on is
what the effects keep. -/
theorem foldl_eq_applyAll {β : Type} {f : Solver → β → Solver} {g : β → List Effect}
    {p : Solver → Prop}
    (xs : List β) (hf : ∀ s, s.Proper t → p s → ∀ x ∈ xs, f s x = s.applyAll t (g x))
    (hp : ∀ s, s.Proper t → p s → ∀ e ∈ xs.flatMap g, p (s.apply t e)) :
    ∀ {s : Solver}, s.Proper t → p s → (∀ e ∈ xs.flatMap g, e.Below s.heap.size) →
      xs.foldl f s = s.applyAll t (xs.flatMap g) := by
  induction xs with
  | nil => exact fun _ _ _ => rfl
  | cons x xs ih =>
    intro s hs hps hbelow
    have hx : ∀ e ∈ g x, e ∈ (x :: xs).flatMap g := fun e he => by
      rw [List.flatMap_cons]
      exact List.mem_append_left _ he
    have hxs : ∀ e ∈ xs.flatMap g, e ∈ (x :: xs).flatMap g := fun e he => by
      rw [List.flatMap_cons]
      exact List.mem_append_right _ he
    obtain ⟨hs', hps', hle⟩ := applyAll_induction (p := fun s' => p s' ∧ s.heap.size ≤ s'.heap.size)
      (fun s' e he hs' h => ⟨hp s' hs' h.1 e (hx e he),
        Nat.le_trans h.2 (size_heap_le_apply hs' e)⟩)
      hs (fun e he => hbelow e (hx e he)) ⟨hps, Nat.le_refl _⟩
    rw [List.foldl_cons, List.flatMap_cons, applyAll_append, hf s hs hps x List.mem_cons_self]
    exact ih (fun s hs hps y hy => hf s hs hps y (List.mem_cons_of_mem _ hy))
      (fun s hs hps e he => hp s hs hps e (hxs e he)) hs' hps'
        fun e he => (hbelow e (hxs e he)).mono hle

/-! ## Statements of methods that become reachable -/

theorem effectsOf_of_waits {b : Var} (h : i.waitsAt? = some b) :
    s.effectsOf t i = .node (.var b) :: .wait i ::
      (s.objectsAt b).flatMap fun o => i.effectsOn t o (s.typeOf? o) := by
  unfold effectsOf Instr.effects
  rw [h]
  simp

theorem effectsOf_of_not_waits (h : i.waitsAt? = none) : s.effectsOf t i = i.effects t := by
  unfold effectsOf
  rw [h]
  simp

theorem register_eq (hs : s.Proper t) (h : s.fault = none) (b : Var) (i : Instr) :
    s.register t b i = s.applyAll t (.node (.var b) :: .wait i ::
      (s.objectsAt b).flatMap fun o => i.effectsOn t o (s.typeOf? o)) := by
  have hf : (s.apply t (.node (.var b))).fault = none := (fault_apply hs).mpr ⟨h, rfl⟩
  have hs₁ : (s.apply t (.node (.var b))).Proper t := hs.apply trivial
  have hs₂ : ((s.apply t (.node (.var b))).apply t (.wait i)).Proper t := hs₁.apply trivial
  have hsees : s.Sees ((s.apply t (.node (.var b))).apply t (.wait i)) :=
    ((Sees.refl s).apply hs _).apply hs₁ _
  have hlt : ∀ o ∈ s.objectsAt b, o < s.heap.size := fun o ho => (hs.pts _).lt o ho
  rw [applyAll_cons, applyAll_cons]
  rw [← foldl_eq_applyAll (f := fun s o => s.fire t o i) (p := s.Sees) (s.objectsAt b) ?_ ?_
    hs₂ hsees]
  · rw [apply_wait_eq hf, apply_node_eq h]
    unfold register
    dsimp only [pointer]
    rw [FlowGraph.pts_intern]
    rfl
  · intro e he
    obtain ⟨o, ho, he⟩ := List.mem_flatMap.mp he
    exact Instr.effectsOn_below (Nat.lt_of_lt_of_le (hlt o ho) hsees.heap) _ i e he
  · intro s' hs' hsees' o ho
    rw [← hsees'.types o (hlt o ho)]
    exact fire_eq hs' (Nat.lt_of_lt_of_le (hlt o ho) hsees'.heap) i
  · exact fun s' hs' hsees' e _ => hsees'.apply hs' e

theorem guarded_connect_eq (h : s.fault = none) (p : Prop) [Decidable p] (kind : EdgeKind)
    (a b : Pointer) (filter : Option Ty) : (if p then s.connect t kind a b filter else s) =
      s.applyAll t (if p then [.edge kind a b filter] else []) := by
  split_ifs
  · exact (apply_edge_eq h ..).symm
  · rfl

theorem guarded_register_eq (hs : s.Proper t) (h : s.fault = none) {p : Prop}
    [Decidable p] {b : Var}
    (hwaits : i.waitsAt? = if p then some b else none) (hnone : ¬ p → i.effects t = []) :
    (if p then s.register t b i else s) = s.applyAll t (s.effectsOf t i) := by
  split_ifs at hwaits ⊢ with hp
  · rw [effectsOf_of_waits hwaits]
    exact register_eq hs h b i
  · rw [effectsOf_of_not_waits hwaits, hnone hp]
    rfl

theorem perform_eq (hs : s.Proper t) (i : Instr) :
    s.perform t i = s.applyAll t (s.effectsOf t i) := by
  unfold perform
  split_ifs with h
  · rw [applyAll_of_fault h]
  have hf : s.fault = none := Option.not_isSome_iff_eq_none.mp h
  cases i with
  | new site =>
    rw [effectsOf_of_not_waits rfl]
    show _ = s.apply t (.alloc site)
    rw [apply, if_neg h]
  | assign x y =>
    rw [effectsOf_of_not_waits rfl]
    exact guarded_connect_eq hf ..
  | cast x y type =>
    rw [effectsOf_of_not_waits rfl]
    exact guarded_connect_eq hf ..
  | staticLoad x f =>
    rw [effectsOf_of_not_waits rfl]
    exact guarded_connect_eq hf ..
  | staticStore f y =>
    rw [effectsOf_of_not_waits rfl]
    exact guarded_connect_eq hf ..
  | load x b f =>
    exact guarded_register_eq hs hf rfl fun hp => by simp [Instr.effects, Instr.waitsAt?, hp]
  | store b f y =>
    exact guarded_register_eq hs hf rfl fun hp => by simp [Instr.effects, Instr.waitsAt?, hp]
  | arrayLoad x b =>
    exact guarded_register_eq hs hf rfl fun hp => by simp [Instr.effects, Instr.waitsAt?, hp]
  | arrayStore b y =>
    exact guarded_register_eq hs hf rfl fun hp => by simp [Instr.effects, Instr.waitsAt?, hp]
  | call c =>
    dsimp only
    by_cases hstatic : c.call.kind = .static
    · have hwaits : (Instr.call c).waitsAt? = none := if_pos hstatic
      have hdispatch : s.dispatch t c none = _ := dispatch_eq hs hf c (by rintro _ ⟨⟩)
      rw [if_pos hstatic, effectsOf_of_not_waits hwaits, hdispatch]
      unfold Instr.effects
      rw [hwaits]
      dsimp only
      rw [if_pos hstatic]
      rfl
    · rw [if_neg hstatic]
      cases hrecv : c.call.recv with
      | some v =>
        have hwaits : (Instr.call c).waitsAt? = some v := (if_neg hstatic).trans hrecv
        rw [effectsOf_of_waits hwaits]
        exact register_eq hs hf v _
      | none =>
        have hwaits : (Instr.call c).waitsAt? = none := (if_neg hstatic).trans hrecv
        rw [effectsOf_of_not_waits hwaits]
        unfold Instr.effects
        rw [hwaits]
        dsimp only
        rw [if_neg hstatic, applyAll_cons, apply, if_neg h]
        rfl
  | ret => rfl

theorem mem_effectsOf : e ∈ s.effectsOf t i ↔ e ∈ i.effects t ∨
    ∃ b, i.waitsAt? = some b ∧ ∃ o ∈ s.objectsAt b, e ∈ i.effectsOn t o (s.typeOf? o) := by
  unfold effectsOf
  simp only [List.mem_append, List.mem_flatMap, Option.mem_toList]
  refine or_congr_right ⟨?_, ?_⟩
  · rintro ⟨o, ⟨b, hb, ho⟩, he⟩
    exact ⟨b, hb, o, ho, he⟩
  · rintro ⟨b, hb, o, ho, he⟩
    exact ⟨o, ⟨b, hb, ho⟩, he⟩

theorem effectsOf_below (hs : s.Proper t) (i : Instr) :
    ∀ e ∈ s.effectsOf t i, e.Below s.heap.size := by
  intro e he
  rcases mem_effectsOf.mp he with he | ⟨b, -, o, ho, he⟩
  · exact Instr.effects_below i e he
  · exact Instr.effectsOn_below ((hs.pts _).lt o ho) _ i e he

theorem Sees.effectsOf_eq {s₀ : Solver} (h : s₀.Sees s) (hs₀ : s₀.Proper t) (i : Instr) :
    s.effectsOf t i = s₀.effectsOf t i := by
  cases hi : i.waitsAt? with
  | none => rw [effectsOf_of_not_waits hi, effectsOf_of_not_waits hi]
  | some b =>
    rw [effectsOf_of_waits hi, effectsOf_of_waits hi, h.objects b]
    congr 2
    refine List.flatMap_congr fun o ho => ?_
    rw [h.types o ((hs₀.pts _).lt o ho)]

/-- The effects of a method that becomes reachable. -/
def bodyEffects (t : ClassTable) (s : Solver) (m : MethodId) : List Effect :=
  match t.method? m with
  | some M => M.instrs.flatMap (s.effectsOf t)
  | none => []

theorem mem_bodyEffects {m : MethodId} : e ∈ s.bodyEffects t m ↔
    ∃ M, t.method? m = some M ∧ ∃ i ∈ M.instrs, e ∈ s.effectsOf t i := by
  unfold bodyEffects
  cases t.method? m <;> simp

theorem bodyEffects_below (hs : s.Proper t) (m : MethodId) :
    ∀ e ∈ s.bodyEffects t m, e.Below s.heap.size := by
  intro e he
  obtain ⟨M, -, i, -, he⟩ := mem_bodyEffects.mp he
  exact effectsOf_below hs i e he

/-- The statements that are put to wait are those of the method. -/
theorem wait_mem_bodyEffects {m : MethodId} (h : .wait i ∈ s.bodyEffects t m) :
    ∃ M, t.method? m = some M ∧ i ∈ M.instrs ∧ i.waitsAt?.isSome := by
  obtain ⟨M, hM, j, hj, he⟩ := mem_bodyEffects.mp h
  rcases mem_effectsOf.mp he with he | ⟨b, -, o, -, he⟩
  · cases Instr.hasEffect_of_mem he with
    | wait hb => exact ⟨M, hM, hj, by rw [hb]; rfl⟩
    | call _ he => exact nomatch he
  · exact absurd rfl (Instr.effectsOn_ne_wait he i)

theorem enter_eq (hs : s.Proper t) (m : MethodId) :
    s.enter t m = (s.tell (.reachable m)).applyAll t (s.bodyEffects t m) := by
  unfold enter bodyEffects
  cases t.method? m with
  | none => rfl
  | some M =>
    have hs' : (s.tell (.reachable m)).Proper t := { hs with }
    refine foldl_eq_applyAll (p := (s.tell (.reachable m)).Sees) M.instrs ?_ ?_ hs' (Sees.refl _) ?_
    · intro s' hs'' hsees i _
      rw [perform_eq hs'' i, hsees.effectsOf_eq hs' i]
      rfl
    · exact fun s' hs'' hsees e _ => hsees.apply hs'' e
    · intro e he
      obtain ⟨i, -, he⟩ := List.mem_flatMap.mp he
      exact effectsOf_below hs i e he

/-! ## Objects that arrive -/

theorem pushAll_append {α : Type} (q : Queue α) (as bs : List α) :
    q.pushAll (as ++ bs) = (q.pushAll as).pushAll bs := List.foldl_append

theorem foldl_send_eq (es : List FlowEdge) (os : ObjSet) : ∀ {s : Solver}, s.memo.Faithful t →
    ∃ memo, Memo.Asked t s.memo memo ∧ es.foldl (fun s e => s.send t e.target os e.filter) s =
      { s with
        memo
        queue := s.queue.pushAll (es.flatMap fun e => s.parcel t e.target os e.filter) } := by
  induction es with
  | nil => exact fun {s} _ => ⟨s.memo, .refl, rfl⟩
  | cons e es ih =>
    intro s hm
    obtain ⟨memo₁, hmemo₁, hsend⟩ := send_eq hm e.target os e.filter
    obtain ⟨memo₂, hmemo₂, hrest⟩ := ih
      (s := { s with memo := memo₁, queue := s.queue.pushAll (s.parcel t e.target os e.filter) })
      (hmemo₁.faithful hm)
    refine ⟨memo₂, hmemo₁.trans hmemo₂, ?_⟩
    rw [List.foldl_cons, hsend, hrest, List.flatMap_cons, pushAll_append]
    rfl

/-- Objects join what a node points to, and are sent along its edges. -/
def arrive (t : ClassTable) (s : Solver) (p : Nat) (fresh : ObjSet) : Solver :=
  let s := { s with
    flow := s.flow.addPts p fresh
    facts := fresh.ids.foldl (fun fs o => fs.push (p, o)) s.facts }
  (s.flow.out p).foldl (fun s e => s.send t e.target fresh e.filter) s

/-- The work of sending objects along the edges of a node. -/
def onward (t : ClassTable) (s : Solver) (p : Nat) (fresh : ObjSet) : List Work :=
  (s.flow.out p).flatMap fun e => s.parcel t e.target fresh e.filter

theorem arrive_eq (hs : s.Proper t) (p : Nat) (fresh : ObjSet) :
    ∃ memo facts, Memo.Asked t s.memo memo ∧ s.arrive t p fresh =
      { s with
        memo, facts
        flow := s.flow.addPts p fresh
        queue := s.queue.pushAll (s.onward t p fresh) } := by
  unfold arrive onward
  dsimp only
  rw [FlowGraph.out_addPts]
  obtain ⟨memo, hmemo, heq⟩ := foldl_send_eq (s.flow.out p) fresh (s := { s with
    flow := s.flow.addPts p fresh
    facts := fresh.ids.foldl (fun fs o => fs.push (p, o)) s.facts }) hs.memo
  exact ⟨memo, _, hmemo, heq⟩

theorem mem_onward {p n : Nat} {fresh os : ObjSet} {k : Nat} (hfresh : fresh.Below k)
    (h : .delta n os ∈ s.onward t p fresh) : (∃ e ∈ s.flow.out p, n = e.target) ∧ os.Below k := by
  obtain ⟨e, he, hmem⟩ := List.mem_flatMap.mp h
  obtain ⟨rfl, hos⟩ := parcel_below hfresh hmem
  exact ⟨⟨e, he, rfl⟩, hos⟩

theorem entered_onward (t : ClassTable) (s : Solver) (p : Nat) (fresh : ObjSet) :
    (s.onward t p fresh).filterMap entered? = [] := by
  rw [List.filterMap_eq_nil_iff]
  intro w hw
  obtain ⟨e, -, hmem⟩ := List.mem_flatMap.mp hw
  unfold parcel at hmem
  split_ifs at hmem
  · exact absurd hmem List.not_mem_nil
  · rw [List.mem_singleton.mp hmem]
    rfl

section Frame

variable (hs : s.Proper t) (p : Nat) (fresh : ObjSet)

include hs

theorem heap_arrive : (s.arrive t p fresh).heap = s.heap := by
  obtain ⟨memo, facts, -, heq⟩ := arrive_eq hs p fresh
  rw [heq]

theorem typeOf?_arrive (o : Nat) : (s.arrive t p fresh).typeOf? o = s.typeOf? o := by
  unfold typeOf?
  rw [heap_arrive hs]

theorem waiting_arrive : (s.arrive t p fresh).waiting = s.waiting := by
  obtain ⟨memo, facts, -, heq⟩ := arrive_eq hs p fresh
  rw [heq]

theorem calls_arrive : (s.arrive t p fresh).calls = s.calls := by
  obtain ⟨memo, facts, -, heq⟩ := arrive_eq hs p fresh
  rw [heq]

theorem key?_arrive (n : Nat) : (s.arrive t p fresh).flow.key? n = s.flow.key? n := by
  obtain ⟨memo, facts, -, heq⟩ := arrive_eq hs p fresh
  rw [heq]
  exact FlowGraph.key?_addPts ..

theorem queued_arrive : (s.arrive t p fresh).queued = s.queued := by
  obtain ⟨memo, facts, -, heq⟩ := arrive_eq hs p fresh
  rw [heq]
  unfold queued
  dsimp only
  rw [Queue.toList_pushAll hs.queue, List.filterMap_append, entered_onward, List.append_nil]

end Frame

theorem Proper.arrive (hs : s.Proper t) {p : Nat} {os : ObjSet} (hos : os.Below s.heap.size)
    (hp : p < s.flow.size) : (s.arrive t p (os.diff (s.flow.pts p))).Proper t := by
  obtain ⟨memo, facts, hmemo, heq⟩ := arrive_eq hs p (os.diff (s.flow.pts p))
  have hlist := Queue.toList_pushAll hs.queue (s.onward t p (os.diff (s.flow.pts p)))
  refine ⟨?_, ?_, ?_, ?_, ?_, ?_, ?_, ?_, ?_, ?_⟩
  · rw [heq]
    exact hs.flow.addPts p _
  · rw [heq]
    exact hmemo.faithful hs.memo
  · rw [heq]
    exact hs.queue.pushAll _
  · rw [heq]
    exact hs.heap
  · intro n
    rw [heq]
    by_cases hn : n = p
    · subst hn
      dsimp only
      rw [FlowGraph.pts_addPts_self hp]
      exact (hs.pts n).union_diff hos
    · dsimp only
      rw [FlowGraph.pts_addPts_of_ne hn]
      exact hs.pts n
  · intro n os' h
    rw [heq] at h ⊢
    dsimp only at h ⊢
    rw [hlist, List.mem_append] at h
    rw [FlowGraph.size_addPts]
    rcases h with h | h
    · exact hs.delta h
    · obtain ⟨⟨e, he, rfl⟩, hos'⟩ := mem_onward (hos.diff _) h
      exact ⟨hs.flow.target_lt he, hos'⟩
  · rw [heq]
    exact hs.indexed
  · rw [heq]
    exact hs.callee_reachable
  · rw [queued_arrive hs, calls_arrive hs]
    exact hs.queued_reachable
  · rw [queued_arrive hs]
    exact hs.queued_nodup

section Relations

variable {p : Nat} {fresh : ObjSet} {q q' : Pointer} (hs : s.Proper t) (hp : s.flow.key? p = some q)

include hs

theorem flows_arrive {kind : EdgeKind} {a b : Pointer} {filter : Option Ty} :
    (s.arrive t p fresh).Flows kind a b filter ↔ s.Flows kind a b filter := by
  obtain ⟨memo, facts, -, heq⟩ := arrive_eq hs p fresh
  rw [heq]
  exact FlowGraph.flows_addPts

include hp

theorem holds_arrive : (s.arrive t p fresh).Holds q' o ↔ s.Holds q' o ∨ (q' = q ∧ o ∈ fresh) := by
  obtain ⟨memo, facts, -, heq⟩ := arrive_eq hs p fresh
  rw [heq]
  exact FlowGraph.holds_addPts hp

/-- What is on its way after objects arrived at a pointer: what was before, and the new objects
along the edges of the pointer. -/
theorem pending_arrive : (s.arrive t p fresh).Pending q' o ↔ s.Pending q' o ∨
    ∃ kind filter, s.Flows kind q q' filter ∧ o ∈ fresh ∧ s.passes t filter o = true := by
  obtain ⟨memo, facts, -, heq⟩ := arrive_eq hs p fresh
  rw [heq]
  unfold Pending
  simp only [Queue.toList_pushAll hs.queue, List.mem_append, or_and_right, exists_or,
    FlowGraph.key?_addPts]
  refine or_congr_right ?_
  constructor
  · rintro ⟨n, os, hmem, hn, ho⟩
    obtain ⟨e, he, hmem⟩ := List.mem_flatMap.mp hmem
    obtain ⟨htarget, hfresh, hpass⟩ :=
      (exists_mem_parcel (p := fun n => s.flow.key? n = some q')).mp ⟨n, os, hmem, hn, ho⟩
    exact ⟨e.kind, e.filter, ⟨p, e.target, hp, htarget, he⟩, hfresh, hpass⟩
  · rintro ⟨kind, filter, ⟨n, n', hn, hn', he⟩, hfresh, hpass⟩
    obtain rfl := hs.flow.distinct hn hp
    obtain ⟨m, os, hmem, hm, ho⟩ := (exists_mem_parcel (t := t) (s := s)
      (p := fun m => s.flow.key? m = some q')).mpr ⟨hn', hfresh, hpass⟩
    exact ⟨m, os, List.mem_flatMap.mpr ⟨_, he, hmem⟩, hm, ho⟩

end Relations

theorem mem_waitingAt : i ∈ s.waitingAt v ↔ i ∈ s.waiting ∧ i.base? = some v := by
  have hrank : i.rank < 5 := by cases i <;> simp [Instr.rank]
  unfold waitingAt
  simp only [List.mem_flatMap, List.mem_range, List.mem_filter, decide_eq_true_iff]
  constructor
  · rintro ⟨r, -, hi, hv, -⟩
    exact ⟨hi, hv⟩
  · rintro ⟨hi, hv⟩
    exact ⟨i.rank, hrank, hi, hv, rfl⟩

/-- The effects of the statements that wait at a variable, for objects that arrive there. -/
def wakeEffects (t : ClassTable) (s : Solver) (p : Nat) (fresh : ObjSet) : List Effect :=
  match s.flow.key? p with
  | some (.var v) =>
    fresh.ids.flatMap fun o => (s.waitingAt v).flatMap fun i => i.effectsOn t o (s.typeOf? o)
  | _ => []

theorem exists_of_mem_wakeEffects {p : Nat} {fresh : ObjSet} (he : e ∈ s.wakeEffects t p fresh) :
    ∃ o i, o ∈ fresh ∧ i ∈ s.waiting ∧ e ∈ i.effectsOn t o (s.typeOf? o) := by
  unfold wakeEffects at he
  split at he
  · obtain ⟨o, ho, he⟩ := List.mem_flatMap.mp he
    obtain ⟨i, hi, he⟩ := List.mem_flatMap.mp he
    exact ⟨o, i, ho, (mem_waitingAt.mp hi).1, he⟩
  · exact absurd he List.not_mem_nil

theorem wakeEffects_below {p : Nat} {fresh : ObjSet} {n : Nat} (hfresh : fresh.Below n) :
    ∀ e ∈ s.wakeEffects t p fresh, e.Below n := by
  intro e he
  obtain ⟨o, i, ho, -, he⟩ := exists_of_mem_wakeEffects he
  exact Instr.effectsOn_below (hfresh.lt o ho) _ i e he

theorem wakeEffects_ne_wait {p : Nat} {fresh : ObjSet} (he : e ∈ s.wakeEffects t p fresh)
    (i : Instr) :
    e ≠ .wait i := by
  obtain ⟨o, j, -, -, he⟩ := exists_of_mem_wakeEffects he
  exact Instr.effectsOn_ne_wait he i

theorem foldl_wake_eq {v : Var} {os : List Nat} {s₀ : Solver} (hlt : ∀ o ∈ os, o < s₀.heap.size)
    (hs : s.Proper t) (hsees : s₀.Sees s) (hwaiting : s.waiting = s₀.waiting) :
    os.foldl (fun s o => (s.waitingAt v).foldl (fun s i => s.fire t o i) s) s =
      s.applyAll t (os.flatMap fun o => (s₀.waitingAt v).flatMap
        fun i => i.effectsOn t o (s₀.typeOf? o)) := by
  refine foldl_eq_applyAll (p := fun s => s₀.Sees s ∧ s.waiting = s₀.waiting) os ?_ ?_ hs
    ⟨hsees, hwaiting⟩ ?_
  · rintro s hs ⟨hsees, hwaiting⟩ o ho
    have hat : s.waitingAt v = s₀.waitingAt v := by
      unfold waitingAt
      rw [hwaiting]
    rw [hat]
    refine foldl_eq_applyAll (p := s₀.Sees) _ ?_ (fun s hs h e _ => h.apply hs e) hs hsees ?_
    · intro s hs h i _
      rw [← h.types o (hlt o ho)]
      exact fire_eq hs (Nat.lt_of_lt_of_le (hlt o ho) h.heap) i
    · intro e he
      obtain ⟨i, -, he⟩ := List.mem_flatMap.mp he
      exact Instr.effectsOn_below (Nat.lt_of_lt_of_le (hlt o ho) hsees.heap) _ i e he
  · rintro s hs ⟨hsees, hwaiting⟩ e he
    obtain ⟨o, -, he⟩ := List.mem_flatMap.mp he
    obtain ⟨i, -, he⟩ := List.mem_flatMap.mp he
    exact ⟨hsees.apply hs e, (waiting_apply hs (Instr.effectsOn_ne_wait he)).trans hwaiting⟩
  · intro e he
    obtain ⟨o, ho, he⟩ := List.mem_flatMap.mp he
    obtain ⟨i, -, he⟩ := List.mem_flatMap.mp he
    exact Instr.effectsOn_below (Nat.lt_of_lt_of_le (hlt o ho) hsees.heap) _ i e he

theorem propagate_eq (hs : s.Proper t) {p : Nat} {os : ObjSet} (hos : os.Below s.heap.size)
    (hp : p < s.flow.size) : s.propagate t p os =
      if (os.diff (s.flow.pts p)).isEmpty then s
      else (s.arrive t p (os.diff (s.flow.pts p))).applyAll t
        (s.wakeEffects t p (os.diff (s.flow.pts p))) := by
  have hs' := hs.arrive hos hp
  have hfresh := hos.diff (s.flow.pts p)
  unfold propagate
  dsimp only
  split_ifs
  · rfl
  generalize os.diff (s.flow.pts p) = fresh at *
  show (match (s.arrive t p fresh).flow.key? p with
    | some (.var v) => fresh.ids.foldl
      (fun (s : Solver) o => (s.waitingAt v).foldl (fun s i => s.fire t o i) s) (s.arrive t p fresh)
    | _ => s.arrive t p fresh) = _
  unfold wakeEffects
  rw [key?_arrive hs]
  cases s.flow.key? p with
  | none => rfl
  | some q =>
    cases q with
    | var v =>
      have hlt : ∀ o ∈ fresh.ids, o < (s.arrive t p fresh).heap.size := by
        rw [heap_arrive hs]
        exact hfresh.lt
      dsimp only
      rw [foldl_wake_eq hlt hs' (Sees.refl _) rfl]
      unfold waitingAt typeOf?
      rw [waiting_arrive hs, heap_arrive hs]
    | _ => rfl

/-! ## Steps -/

/-- A piece of work is taken from the queue. -/
def taken (s : Solver) (queue : Queue Work) : Solver := { s with queue, steps := s.steps + 1 }

theorem Proper.taken (hs : s.Proper t) {w : Work} {queue : Queue Work}
    (h : s.queue.pop? = some (w, queue)) : (s.taken queue).Proper t := by
  have hlist := Queue.toList_of_pop? h
  have hqueued : (s.taken queue).queued.Sublist s.queued := by
    unfold queued
    rw [hlist]
    exact (List.sublist_cons_self w _).filterMap _
  exact { hs with
    queue := Queue.InBounds.of_pop? h
    delta := fun hmem => hs.delta (hlist ▸ List.mem_cons_of_mem w hmem)
    queued_reachable := fun m hm => hs.queued_reachable m (hqueued.subset hm)
    queued_nodup := hs.queued_nodup.sublist hqueued }

/-- What is on its way is in the work that is taken or in the rest. -/
theorem pending_iff_taken {w : Work} {queue : Queue Work} (h : s.queue.pop? = some (w, queue))
    {q : Pointer} : s.Pending q o ↔
      (∃ n os, w = .delta n os ∧ s.flow.key? n = some q ∧ o ∈ os) ∨
      (s.taken queue).Pending q o := by
  unfold Pending
  rw [Queue.toList_of_pop? h]
  simp only [List.mem_cons, or_and_right, exists_or, eq_comm]
  rfl

theorem mem_queued_iff_taken {w : Work} {queue : Queue Work} (h : s.queue.pop? = some (w, queue))
    {m : MethodId} : m ∈ s.queued ↔ w = .method m ∨ m ∈ (s.taken queue).queued := by
  rw [mem_queued, mem_queued, Queue.toList_of_pop? h, List.mem_cons, eq_comm]
  rfl

/-- How a step begins, and the effects that follow: there is no work, all objects are there already,
objects arrive and wake the statements that wait for them, or a method is entered. -/
inductive Begins (t : ClassTable) (s : Solver) : Solver → List Effect → Prop
  | idle (hpop : s.queue.pop? = none) : Begins t s s []
  | known {p : Nat} {os : ObjSet} {queue : Queue Work}
    (hpop : s.queue.pop? = some (.delta p os, queue))
      (hold : ∀ o ∈ os, o ∈ s.flow.pts p) : Begins t s (s.taken queue) []
  | arrive {p : Nat} {os : ObjSet} {queue : Queue Work}
    (hpop : s.queue.pop? = some (.delta p os, queue))
      (hlt : p < s.flow.size) (hos : os.Below s.heap.size)
      (hnew : (os.diff (s.flow.pts p)).isEmpty = false) :
      Begins t s ((s.taken queue).arrive t p (os.diff (s.flow.pts p)))
        (s.wakeEffects t p (os.diff (s.flow.pts p)))
  | enter {m : MethodId} {queue : Queue Work} (hpop : s.queue.pop? = some (.method m, queue)) :
      Begins t s ((s.taken queue).tell (.reachable m)) (s.bodyEffects t m)

/-- A step is how it begins, and then effects. -/
theorem exists_begins (hs : s.Proper t) :
    ∃ first es, s.Begins t first es ∧ s.step t = first.applyAll t es := by
  cases hpop : s.queue.pop? with
  | none =>
    refine ⟨s, [], .idle hpop, ?_⟩
    unfold step
    rw [hpop]
    rfl
  | some w =>
    obtain ⟨w, queue⟩ := w
    have hs' := hs.taken hpop
    cases w with
    | delta p os =>
      obtain ⟨hlt, hos⟩ := hs.delta (Queue.toList_of_pop? hpop ▸ List.mem_cons_self)
      have hstep : s.step t = (s.taken queue).propagate t p os := by
        unfold step
        rw [hpop]
        rfl
      rw [hstep, propagate_eq hs' hos hlt]
      cases hnew : (os.diff (s.flow.pts p)).isEmpty with
      | true => exact ⟨_, _, .known hpop (ObjSet.subset_of_isEmpty_diff hnew), if_pos hnew⟩
      | false => exact ⟨_, _, .arrive hpop hlt hos hnew, if_neg (Bool.eq_false_iff.mp hnew)⟩
    | method m =>
      refine ⟨_, _, .enter hpop, ?_⟩
      unfold step
      rw [hpop]
      exact enter_eq hs' m

namespace Begins

variable {first : Solver} {es : List Effect}

theorem proper (h : s.Begins t first es) (hs : s.Proper t) : first.Proper t := by
  cases h with
  | idle hpop => exact hs
  | known hpop hold => exact hs.taken hpop
  | arrive hpop hlt hos hnew => exact (hs.taken hpop).arrive hos hlt
  | enter hpop => exact { hs.taken hpop with }

theorem heap (h : s.Begins t first es) (hs : s.Proper t) : first.heap = s.heap := by
  cases h with
  | arrive hpop hlt hos hnew => exact heap_arrive (hs.taken hpop) ..
  | _ => rfl

theorem below (h : s.Begins t first es) (hs : s.Proper t) : ∀ e ∈ es, e.Below first.heap.size := by
  rw [h.heap hs]
  cases h with
  | arrive hpop hlt hos hnew => exact wakeEffects_below (hos.diff _)
  | enter hpop => exact bodyEffects_below hs _
  | _ => exact fun _ he => absurd he List.not_mem_nil

end Begins

theorem Proper.step (hs : s.Proper t) : (s.step t).Proper t := by
  obtain ⟨first, es, hfirst, heq⟩ := exists_begins hs
  rw [heq]
  exact (hfirst.proper hs).applyAll (hfirst.below hs)

end PointsTo.Solver
