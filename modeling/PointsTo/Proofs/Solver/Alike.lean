import PointsTo.Proofs.Solver.Run

/-!
# Two solvers side by side

Two tables that give the same answers let two solvers run side by side, whatever each of them
remembers. Their states differ in the memory only (`Alike`), and this is kept

1. by every update that does not look at the memory (`Alike.update`), and by every question, which
   gets the same answer in both (`Alike.ask`), hence by every effect (`Alike.apply`);
2. by steps, which have the same effects in both (`Alike.step`);
3. by runs, which stop for the same reason (`Alike.runUpTo`).

So the outcome of a run depends on what its table answers, and not on what was asked before it
(`Program.solve_alike`).
-/

namespace PointsTo

/-- The tables give the same answers to what a solver asks. -/
structure ClassTable.Agrees (t t' : ClassTable) : Prop where
  isSubtype : ∀ a b, t'.isSubtype a b = t.isSubtype a b
  resolve : ∀ (c : Call) (recv : Option Ty), c.resolve t' recv = c.resolve t recv
  method? : ∀ id, t'.method? id = t.method? id

namespace ClassTable.Agrees

variable {t t' : ClassTable} (ht : t.Agrees t')

include ht

theorem effectsOn_eq (o : Nat) (type : Option Ty) (i : Instr) :
    i.effectsOn t' o type = i.effectsOn t o type := by
  unfold Instr.effectsOn Invocation.effects
  simp only [ht.resolve, ht.method?]

theorem effects_eq (i : Instr) : i.effects t' = i.effects t := by
  unfold Instr.effects Invocation.effects
  simp only [ht.resolve, ht.method?]

end ClassTable.Agrees

namespace Solver

/-- The states differ in their memories only, each of which is faithful to its own table. -/
inductive Alike (t t' : ClassTable) (s : Solver) : Solver → Prop
  | mk (memo' : Memo) (hm : s.memo.Faithful t) (hm' : memo'.Faithful t') :
    Alike t t' s { s with memo := memo' }

namespace Alike

variable {α : Type} {t t' : ClassTable} {s s' : Solver}

theorem proper (h : Alike t t' s s') (hs : s.Proper t) : s'.Proper t' := by
  obtain ⟨memo', -, hm'⟩ := h
  exact { hs with memo := hm' }

/-! ## Updates and questions -/

/-- An update that neither looks at the memory nor changes it. -/
theorem update (h : Alike t t' s s') (f : Solver → Solver)
    (hf : ∀ s memo, f { s with memo } = { f s with memo }) : Alike t t' (f s) (f s') := by
  obtain ⟨memo', hm, hm'⟩ := h
  -- with the memory that it has already, the update says that it is kept
  have hkeep := congrArg Solver.memo (hf s s.memo)
  rw [hf s memo']
  exact .mk memo' (hkeep ▸ hm) hm'

theorem ask {x x' : StateM Memo α} {a : α} (h : Alike t t' s s') (hx : Memo.Answers t x a)
    (hx' : Memo.Answers t' x' a) : Alike t t' (s.ask x).2 (s'.ask x').2 := by
  obtain ⟨memo', hm, hm'⟩ := h
  obtain ⟨memo₁, hmemo₁, heq⟩ := ask_eq (s := s) hx hm
  obtain ⟨memo₂, hmemo₂, heq'⟩ := ask_eq (s := { s with memo := memo' }) hx' hm'
  rw [heq, heq']
  exact .mk memo₂ (hmemo₁.faithful hm) (hmemo₂.faithful hm')

theorem foldl {β : Type} {f f' : Solver → β → Solver}
    (hf : ∀ b {s s'}, Alike t t' s s' → Alike t t' (f s b) (f' s' b)) :
    ∀ (bs : List β) {s s' : Solver}, Alike t t' s s' → Alike t t' (bs.foldl f s) (bs.foldl f' s')
  | [], _, _, h => h
  | b :: bs, _, _, h => foldl hf bs (hf b h)

theorem addEntry (h : Alike t t' s s') (m : MethodId) :
    Alike t t' (s.addEntry m) (s'.addEntry m) := by
  refine h.update (·.addEntry m) fun s memo => ?_
  rw [addEntry_eq, addEntry_eq]

theorem start {memo memo' : Memo} (hm : memo.Faithful t) (hm' : memo'.Faithful t')
    (entries : List MethodId) :
    Alike t t' (.start memo entries) (.start memo' entries) :=
  foldl (fun m _ _ h => h.addEntry m) entries (.mk (s := { memo }) memo' hm hm')

theorem addReachable (h : Alike t t' s s') (m : MethodId) :
    Alike t t' (s.addReachable m) (s'.addReachable m) := by
  refine h.update (·.addReachable m) fun s memo => ?_
  rw [addReachable_eq, addReachable_eq]

theorem unresolved (h : Alike t t' s s') (site : Stmt) (recv : Option Nat) (e : ResolutionError) :
    Alike t t' (s.unresolved site recv e) (s'.unresolved site recv e) := by
  refine h.update (·.unresolved site recv e) fun s memo => ?_
  have htype : ({ s with memo } : Solver).typeOf? = s.typeOf? := rfl
  unfold Solver.unresolved
  dsimp only
  rw [htype]
  split_ifs <;> rfl

theorem alloc (h : Alike t t' s s') (site : Site) (i : Nat) :
    Alike t t' ((s.object site).2.enqueue i (.singleton (s.object site).1))
      ((s'.object site).2.enqueue i (.singleton (s'.object site).1)) := by
  obtain ⟨memo', hm, hm'⟩ := h
  unfold Solver.object
  dsimp only
  split
  · exact .mk memo' hm hm'
  · exact .mk memo' hm hm'

theorem stop?_eq (h : Alike t t' s s') (l : Limits) : l.stop? s' = l.stop? s := by
  obtain ⟨memo', -, -⟩ := h
  rfl

theorem isCancelled_eq (h : Alike t t' s s') (l : Limits) : l.isCancelled s' = l.isCancelled s := by
  obtain ⟨memo', -, -⟩ := h
  rfl

section Agrees

variable (ht : t.Agrees t')

include ht

theorem send (h : Alike t t' s s') (j : Nat) (os : ObjSet) (filter : Option Ty) :
    Alike t t' (s.send t j os filter) (s'.send t' j os filter) := by
  obtain ⟨memo', hm, hm'⟩ := h
  obtain ⟨memo₁, hmemo₁, heq⟩ := send_eq (s := s) hm j os filter
  obtain ⟨memo₂, hmemo₂, heq'⟩ := send_eq (s := { s with memo := memo' }) hm' j os filter
  have hparcel : ({ s with memo := memo' } : Solver).parcel t' j os filter = s.parcel t j os
      filter := by
    unfold parcel kept passes
    simp only [ht.isSubtype]
    rfl
  rw [heq, heq', hparcel]
  exact .mk memo₂ (hmemo₁.faithful hm) (hmemo₂.faithful hm')

theorem addEdge (h : Alike t t' s s') (kind : EdgeKind) (i j : Nat) (filter : Option Ty) :
    Alike t t' (s.addEdge t kind i j filter) (s'.addEdge t' kind i j filter) := by
  have hnew := h.update (fun s => { s with
    flow := (s.flow.addEdge kind i j filter).2
    events := s.events.push (.flowEdge kind i j) }) fun _ _ => rfl
  obtain ⟨memo', hm, hm'⟩ := h
  unfold Solver.addEdge
  dsimp only [Solver.tell] at hnew ⊢
  split_ifs
  · exact hnew
  · exact hnew.send ht _ _ _
  · exact .mk memo' hm hm'

theorem connect (h : Alike t t' s s') (kind : EdgeKind) (a b : Pointer) (filter : Option Ty) :
    Alike t t' (s.connect t kind a b filter) (s'.connect t' kind a b filter) := by
  have hnodes := h.update (fun s => { s with flow := s.flowWith a b }) fun _ _ => rfl
  obtain ⟨memo', -, -⟩ := h
  exact hnodes.addEdge ht kind _ _ filter

/-! ## Effects -/

theorem apply (h : Alike t t' s s') (e : Effect) : Alike t t' (s.apply t e) (s'.apply t' e) := by
  have hfault : s'.fault = s.fault := by
    obtain ⟨memo', -, -⟩ := h
    rfl
  cases hf : s.fault with
  | some f =>
    rw [apply_of_fault_eq_some hf, apply_of_fault_eq_some (hfault.trans hf)]
    exact h
  | none =>
    unfold Solver.apply
    rw [if_neg (not_isSome_fault hf), if_neg (not_isSome_fault (hfault.trans hf))]
    cases e with
    | node q => exact h.update (fun s => (s.pointer q).2) fun _ _ => rfl
    | edge kind a b filter => exact h.connect ht kind a b filter
    | arrive q o =>
      exact h.update (fun s => (s.pointer q).2.enqueue (s.pointer q).1 (.singleton o))
        fun _ _ => rfl
    | alloc site =>
      have hnode := h.update (fun s => (s.pointer (.var site.lhs)).2) fun _ _ => rfl
      obtain ⟨memo', -, -⟩ := h
      exact hnode.alloc site _
    | wait i => exact h.update (fun s => { s with waiting := s.waiting ++ [i] }) fun _ _ => rfl
    | ask c recv =>
      exact h.ask (c.target_answers t recv) (ht.resolve c recv ▸ c.target_answers t' recv)
    | call c m =>
      have hedge := h.update
        (fun s => { s with calls := (s.calls.addEdge c.stmt m c.call.kind.dispatched).2 })
          fun _ _ => rfl
      have hfresh := (hedge.update (·.tell (.callEdge c.stmt m)) fun _ _ => rfl).addReachable m
      obtain ⟨memo', -, -⟩ := h
      dsimp only
      split_ifs
      · exact hfresh
      · exact hedge
    | unresolved site recv e => exact h.unresolved site recv e
    | fault f => exact h.update (·.fail f) fun _ _ => rfl

theorem applyAll (h : Alike t t' s s') (es : List Effect) :
    Alike t t' (s.applyAll t es) (s'.applyAll t' es) :=
  foldl (fun e _ _ h => h.apply ht e) es h

/-! ## Steps -/

theorem effectsOf_eq (h : Alike t t' s s') (i : Instr) : s'.effectsOf t' i = s.effectsOf t i := by
  obtain ⟨memo', -, -⟩ := h
  unfold effectsOf
  simp only [ht.effects_eq, ht.effectsOn_eq]
  rfl

theorem bodyEffects_eq (h : Alike t t' s s') (m : MethodId) :
    s'.bodyEffects t' m = s.bodyEffects t m := by
  unfold bodyEffects
  rw [ht.method?, funext fun i => h.effectsOf_eq ht i]

theorem wakeEffects_eq (h : Alike t t' s s') (p : Nat) (fresh : ObjSet) :
    s'.wakeEffects t' p fresh = s.wakeEffects t p fresh := by
  obtain ⟨memo', -, -⟩ := h
  unfold wakeEffects
  simp only [ht.effectsOn_eq]
  rfl

theorem arrive (h : Alike t t' s s') (p : Nat) (fresh : ObjSet) :
    Alike t t' (s.arrive t p fresh) (s'.arrive t' p fresh) := by
  have hjoined := h.update (fun s => { s with
    flow := s.flow.addPts p fresh
    facts := fresh.ids.foldl (fun fs o => fs.push (p, o)) s.facts }) fun _ _ => rfl
  obtain ⟨memo', -, -⟩ := h
  exact foldl (fun e _ _ h => h.send ht e.target fresh e.filter) _ hjoined

theorem propagate (h : Alike t t' s s') (hs : s.Proper t) {p : Nat} {os : ObjSet}
    (hp : p < s.flow.size)
    (hos : os.Below s.heap.size) : Alike t t' (s.propagate t p os) (s'.propagate t' p os) := by
  have hs' := h.proper hs
  have harrive := h.arrive ht p (os.diff (s.flow.pts p))
  have hwake := h.wakeEffects_eq ht p (os.diff (s.flow.pts p))
  have happly := harrive.applyAll ht (s.wakeEffects t p (os.diff (s.flow.pts p)))
  obtain ⟨memo', hm, hm'⟩ := h
  -- the two are compared as a beginning and effects, since a statement that fires looks at the
  -- state it meets
  rw [propagate_eq hs hos hp, propagate_eq hs' hos hp]
  dsimp only
  split_ifs
  · exact .mk memo' hm hm'
  · rw [hwake]
    exact happly

theorem enter (h : Alike t t' s s') (hs : s.Proper t) (m : MethodId) :
    Alike t t' (s.enter t m) (s'.enter t' m) := by
  rw [enter_eq hs, enter_eq (h.proper hs), h.bodyEffects_eq ht]
  exact (h.update (·.tell (.reachable m)) fun _ _ => rfl).applyAll ht _

/-- A step does the same work in both states. -/
theorem step (h : Alike t t' s s') (hs : s.Proper t) : Alike t t' (s.step t) (s'.step t') := by
  have hqueue : s'.queue = s.queue := by
    obtain ⟨memo', -, -⟩ := h
    rfl
  unfold Solver.step
  rw [hqueue]
  cases hpop : s.queue.pop? with
  | none => exact h
  | some w =>
    obtain ⟨w, queue⟩ := w
    have htaken := h.update (·.taken queue) fun _ _ => rfl
    cases w with
    | delta p os =>
      obtain ⟨hp, hos⟩ := hs.delta (Queue.toList_of_pop? hpop ▸ List.mem_cons_self)
      exact htaken.propagate ht (hs.taken hpop) hp hos
    | method m => exact htaken.enter ht (hs.taken hpop) m

/-! ## Runs -/

/-- Runs of the same length stop for the same reason. -/
theorem runUpTo (l : Limits) : ∀ (n : Nat) {s s' : Solver}, Alike t t' s s' → s.Proper t →
    (Solver.runUpTo t' l n s').1 = (Solver.runUpTo t l n s).1 ∧
      Alike t t' (Solver.runUpTo t l n s).2 (Solver.runUpTo t' l n s').2
  | 0, _, _, h, _ => ⟨rfl, h⟩
  | n + 1, s, s', h, hs => by
    unfold Solver.runUpTo
    rw [h.stop?_eq l]
    cases l.stop? s with
    | some why => exact ⟨rfl, h⟩
    | none => exact runUpTo l n (h.step ht hs) hs.step

end Agrees

end Alike

end Solver

namespace Program

open Solver

variable {p p' : Program}

/-- Runs on programs whose tables agree stop for the same reason, in states that differ in the
memory only. -/
theorem solve_alike (ht : p.table.Agrees p'.table) (hm : p.hierarchy.memo.Faithful p.table)
    (hm' : p'.hierarchy.memo.Faithful p'.table) (hbound : p'.stepBound = p.stepBound)
    (entries : List MethodId) (l : Limits) : (p'.solve entries l).1 = (p.solve entries l).1 ∧
      Alike p.table p'.table (p.solve entries l).2 (p'.solve entries l).2 := by
  have hstart := Alike.start hm hm' entries
  unfold solve
  dsimp only
  rw [hstart.isCancelled_eq, hbound]
  split_ifs
  · exact ⟨rfl, hstart⟩
  · exact hstart.runUpTo ht l _ ((initial_start _ entries).proper hm)

end Program

end PointsTo
