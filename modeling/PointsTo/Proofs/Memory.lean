import Mathlib.Tactic.Common
import PointsTo.Dispatch
import PointsTo.Proofs.Reach

/-!
# The memory cannot be noticed

A memory is faithful to a class table if every remembered answer is the one that the table gives. A
question that is asked with a faithful memory gets the answer of the table and leaves a faithful
memory behind (`Memo.Gives`). From the subtype test this passes on to the selection of methods,
which asks subtype questions on its way, and to the targets of calls.

`Memo.Asked` are the memories that questions lead to, and `Memo.Answers` is `Memo.Gives` for
whatever changes the memory by asking only.
-/

namespace PointsTo

namespace Memo

variable {α β : Type} {t : ClassTable} {m : Memo}

/-- Every remembered answer is the one that the table gives. -/
structure Faithful (t : ClassTable) (m : Memo) : Prop where
  subtypes : ∀ {a b r}, m.subtypes.lookup (a, b) = some r → r = t.isSubtype a b
  virtuals : ∀ {type subsig r}, m.virtuals.lookup (type, subsig) = some r →
    t.resolveVirtual type subsig = .ok r
  methods : ∀ {type subsig r}, m.methods.lookup (type, subsig) = some r →
    t.resolveMethod type subsig = .ok r

theorem faithful_empty (t : ClassTable) : Faithful t {} where
  subtypes h := by cases h
  virtuals h := by cases h
  methods h := by cases h

/-- With a faithful memory the question `x` has the answer `a`, and the memory stays faithful. -/
def Gives (t : ClassTable) (x : StateM Memo α) (a : α) : Prop :=
  ∀ m, Faithful t m → ∃ m', x.run m = (a, m') ∧ Faithful t m'

theorem gives_pure (t : ClassTable) (a : α) : Gives t (pure a) a := fun m hm => ⟨m, rfl, hm⟩

theorem Gives.bind {x : StateM Memo α} {f : α → StateM Memo β} {a : α} {b : β} (hx : Gives t x a)
    (hf : Gives t (f a) b) : Gives t (x >>= f) b := by
  intro m hm
  obtain ⟨m₁, h₁, hm₁⟩ := hx m hm
  obtain ⟨m₂, h₂, hm₂⟩ := hf m₁ hm₁
  refine ⟨m₂, ?_, hm₂⟩
  rw [StateT.run_bind, h₁]
  exact h₂

/-- An answer that is not remembered is found and remembered. -/
theorem Gives.store {x : StateM Memo α} {a : α} (put : α → Memo → Memo) (hx : Gives t x a)
    (hput : ∀ m, Faithful t m → Faithful t (put a m)) :
    Gives t (do let r ← x; modify (put r); pure r) a := by
  refine hx.bind ?_
  intro m hm
  exact ⟨put a m, rfl, hput m hm⟩

/-- An answer that is not remembered is found and remembered, if there is one. -/
theorem Gives.findOut {x : StateM Memo Target} {a : Target} {put : Resolution → Memo → Memo}
    (hx : Gives t x a) (hput : ∀ r, a = .ok r → ∀ m, Faithful t m → Faithful t (put r m)) :
    Gives t (findOut x put) a := by
  refine hx.bind ?_
  cases a with
  | error f => exact gives_pure t _
  | ok r => exact fun m hm => ⟨put r m, rfl, hput r rfl m hm⟩

/-- A question that starts by looking at the memory. -/
theorem gives_get {f : Memo → StateM Memo α} {a : α}
    (h : ∀ m, Faithful t m → ∃ m', (f m).run m = (a, m') ∧ Faithful t m') : Gives t (get >>= f) a :=
  h

/-! ## Looking up a list that grows at the front -/

theorem lookup_cons_imp {κ : Type} [BEq κ] [LawfulBEq κ] {k k' : κ} {a r : α} {l : List (κ × α)}
    (h : ((k, a) :: l).lookup k' = some r) : (k' = k ∧ r = a) ∨ l.lookup k' = some r := by
  rw [List.lookup_cons] at h
  split at h
  · rename_i heq
    exact Or.inl ⟨eq_of_beq heq, (Option.some.inj h).symm⟩
  · exact Or.inr h

theorem Faithful.addSubtype (h : Faithful t m) (a b : Ty) :
    Faithful t { m with subtypes := ((a, b), t.isSubtype a b) :: m.subtypes } where
  subtypes hl := by
    rcases lookup_cons_imp hl with ⟨hk, rfl⟩ | hl
    · obtain ⟨rfl, rfl⟩ := Prod.mk.inj hk
      rfl
    · exact h.subtypes hl
  virtuals hl := h.virtuals hl
  methods hl := h.methods hl

theorem Faithful.addVirtual (h : Faithful t m) {type : Ty} {subsig : String} {r : Resolution}
    (hr : t.resolveVirtual type subsig = .ok r) :
    Faithful t { m with virtuals := ((type, subsig), r) :: m.virtuals } where
  subtypes hl := h.subtypes hl
  virtuals hl := by
    rcases lookup_cons_imp hl with ⟨hk, rfl⟩ | hl
    · obtain ⟨rfl, rfl⟩ := Prod.mk.inj hk
      exact hr
    · exact h.virtuals hl
  methods hl := h.methods hl

theorem Faithful.addMethod (h : Faithful t m) {type : Ty} {subsig : String} {r : Resolution}
    (hr : t.resolveMethod type subsig = .ok r) :
    Faithful t { m with methods := ((type, subsig), r) :: m.methods } where
  subtypes hl := h.subtypes hl
  virtuals hl := h.virtuals hl
  methods hl := by
    rcases lookup_cons_imp hl with ⟨hk, rfl⟩ | hl
    · obtain ⟨rfl, rfl⟩ := Prod.mk.inj hk
      exact hr
    · exact h.methods hl

end Memo

/-! ## Subtype questions -/

namespace ClassTable

variable (t : ClassTable)

theorem mem_ancestors_self (c : String) : c ∈ t.ancestors c :=
  mem_levels_of_mem_frontier (List.mem_singleton_self c)

theorem isSubtype_refl (a : Ty) : t.isSubtype a a = true := by
  cases a with
  | null => rfl
  | prim p => simp [isSubtype]
  | cls c => simp [isSubtype, isSubclass, mem_ancestors_self]
  | array e => simp [isSubtype]

theorem isSubtype_array {a b : Ty} (h : Ty.array a ≠ .array b) :
    t.isSubtype (.array a) (.array b) =
      if a.isReference && b.isReference then t.isSubtype a b else false := by
  have hne : a ≠ b := fun he => h (he ▸ rfl)
  rw [isSubtype]
  split_ifs with hr <;> simp [hne, hr]

end ClassTable

namespace Memo

variable (t : ClassTable)

theorem gives_storeSubtype {a b : Ty} {x : StateM Memo Bool} (hx : Gives t x (t.isSubtype a b)) :
    Gives t
      (do
        let r ← x
        modify fun m => { m with subtypes := ((a, b), r) :: m.subtypes }
        pure r)
      (t.isSubtype a b) :=
  hx.store (fun r m => { m with subtypes := ((a, b), r) :: m.subtypes })
    fun _ hm => hm.addSubtype a b

theorem isSubtype_gives (a b : Ty) : Gives t (isSubtype t a b) (t.isSubtype a b) := by
  induction a generalizing b with
  | array e ih =>
    rw [isSubtype]
    split_ifs with heq
    · rw [← heq, t.isSubtype_refl]
      exact gives_pure t true
    refine gives_get fun m hm => ?_
    dsimp only
    split
    · rename_i r hr
      exact ⟨m, by rw [hm.subtypes hr]; rfl, hm⟩
    · cases b with
      | array e' =>
        have heq' := t.isSubtype_array heq
        dsimp only
        split_ifs at heq' ⊢
        · exact gives_storeSubtype t (heq' ▸ ih e') m hm
        · exact gives_storeSubtype t (heq' ▸ gives_pure t false) m hm
      | _ => exact gives_storeSubtype t (gives_pure t _) m hm
  | _ =>
    rw [isSubtype]
    split_ifs with heq
    · rw [← heq, t.isSubtype_refl]
      exact gives_pure t true
    refine gives_get fun m hm => ?_
    dsimp only
    split
    · rename_i r hr
      exact ⟨m, by rw [hm.subtypes hr]; rfl, hm⟩
    · exact gives_storeSubtype t (gives_pure t _) m hm

/-! ## Selecting methods -/

variable {t}

theorem keepM_gives {p : α → StateM Memo Bool} {q : α → Bool} (h : ∀ a, Gives t (p a) (q a)) :
    ∀ l : List α, Gives t (keepM p l) (l.filter q)
  | [] => gives_pure t []
  | a :: as => by
    unfold keepM
    refine (h a).bind ((keepM_gives h as).bind ?_)
    rw [List.filter_cons]
    exact gives_pure t _

theorem anyM_gives {p : α → StateM Memo Bool} {q : α → Bool} (h : ∀ a, Gives t (p a) (q a)) :
    ∀ l : List α, Gives t (anyM p l) (l.any q)
  | [] => gives_pure t false
  | a :: as => by
    unfold anyM
    refine (h a).bind ?_
    rw [List.any_cons]
    cases q a with
    | true => exact gives_pure t true
    | false => exact anyM_gives h as

theorem keepM_id {p : α → Id Bool} : ∀ l : List α, Id.run (keepM p l) = l.filter fun a => (p a).run
  | [] => rfl
  | a :: as => by
    have := keepM_id (p := p) as
    simp only [keepM, Id.run_bind, Id.run_pure, this, List.filter_cons]

theorem anyM_id {p : α → Id Bool} : ∀ l : List α, Id.run (anyM p l) = l.any fun a => (p a).run
  | [] => rfl
  | a :: as => by
    have := anyM_id (p := p) as
    simp only [anyM, Id.run_bind, List.any_cons]
    cases (p a).run with
    | true => rfl
    | false => exact this

end Memo

namespace ClassTable

/-- The declarations whose class has no other one of them in a subtype. -/
def mostSpecific (t : ClassTable) (ds : List Method) : List Method :=
  ds.filter fun d => !ds.any fun o =>
    if o.cls = d.cls then false else t.isSubtype (.cls o.cls) (.cls d.cls)

theorem maximallySpecific_id (t : ClassTable) (ds : List Method) :
    Id.run (maximallySpecific (fun a b => pure (t.isSubtype a b)) ds) = t.mostSpecific ds := by
  unfold maximallySpecific mostSpecific
  rw [Memo.keepM_id]
  refine List.filter_congr fun d _ => ?_
  rw [Id.run_bind, Memo.anyM_id, Id.run_pure]
  congr 2

end ClassTable

namespace Memo

theorem maximallySpecific_gives (t : ClassTable) (ds : List Method) :
    Gives t (ClassTable.maximallySpecific (isSubtype t) ds) (t.mostSpecific ds) := by
  unfold ClassTable.maximallySpecific ClassTable.mostSpecific
  refine keepM_gives (fun d => ?_) ds
  refine Gives.bind (anyM_gives (fun o => ?_) ds) (gives_pure t _)
  split_ifs
  · exact gives_pure t false
  · exact isSubtype_gives t _ _

theorem search_gives (t : ClassTable) (p : Method → Bool) (found : Method → Resolution)
    (pick : List Method → Resolution) (c subsig : String) :
    Gives t (t.search (isSubtype t) p found pick c subsig)
      (Id.run (t.search (fun a b => pure (t.isSubtype a b)) p found pick c subsig)) := by
  unfold ClassTable.search
  split
  · exact gives_pure t _
  · split_ifs
    · exact gives_pure t _
    · refine (maximallySpecific_gives t _).bind ?_
      rw [Id.run_bind, ClassTable.maximallySpecific_id]
      exact gives_pure t _

theorem selectVirtual_gives (t : ClassTable) (type : Ty) (subsig : String) :
    Gives t (t.selectVirtual (isSubtype t) type subsig) (t.resolveVirtual type subsig) := by
  unfold ClassTable.resolveVirtual ClassTable.selectVirtual
  split
  · exact gives_pure t _
  · exact search_gives t _ _ _ _ _

theorem selectMethod_gives (t : ClassTable) (type : Ty) (subsig : String) :
    Gives t (t.selectMethod (isSubtype t) type subsig) (t.resolveMethod type subsig) := by
  unfold ClassTable.resolveMethod ClassTable.selectMethod
  split
  · exact search_gives t _ _ _ _ _
  · exact gives_pure t _

theorem resolveVirtual_gives (t : ClassTable) (type : Ty) (subsig : String) :
    Gives t (resolveVirtual t type subsig) (t.resolveVirtual type subsig) := by
  unfold resolveVirtual
  refine gives_get fun m hm => ?_
  split
  · rename_i r hr
    exact ⟨m, by rw [hm.virtuals hr]; rfl, hm⟩
  · exact (selectVirtual_gives t type subsig).findOut (fun r hr m hm => hm.addVirtual hr) m hm

theorem resolveMethod_gives (t : ClassTable) (type : Ty) (subsig : String) :
    Gives t (resolveMethod t type subsig) (t.resolveMethod type subsig) := by
  unfold resolveMethod
  refine gives_get fun m hm => ?_
  split
  · rename_i r hr
    exact ⟨m, by rw [hm.methods hr]; rfl, hm⟩
  · exact (selectMethod_gives t type subsig).findOut (fun r hr m hm => hm.addMethod hr) m hm

/-! ## Sequences of questions -/

/-- The memories to which questions lead. -/
inductive Asked (t : ClassTable) (m : Memo) : Memo → Prop
  | refl : Asked t m m
  | subtype {m' : Memo} (h : Asked t m m') (a b : Ty) : Asked t m ((isSubtype t a b).run m').2
  | virtual {m' : Memo} (h : Asked t m m') (type : Ty) (subsig : String) :
    Asked t m ((resolveVirtual t type subsig).run m').2
  | method {m' : Memo} (h : Asked t m m') (type : Ty) (subsig : String) :
    Asked t m ((resolveMethod t type subsig).run m').2

theorem Asked.trans {t : ClassTable} {m m' m'' : Memo} (h : Asked t m m') (h' : Asked t m' m'') :
    Asked t m m'' := by
  induction h' with
  | refl => exact h
  | subtype _ a b ih => exact ih.subtype a b
  | virtual _ type subsig ih => exact ih.virtual type subsig
  | method _ type subsig ih => exact ih.method type subsig

theorem Gives.faithful {α : Type} {t : ClassTable} {m : Memo} {x : StateM Memo α} {a : α}
    (hx : Gives t x a)
    (hm : m.Faithful t) : (x.run m).2.Faithful t := by
  obtain ⟨m', hrun, hm'⟩ := hx m hm
  rwa [hrun]

theorem Asked.faithful {t : ClassTable} {m m' : Memo} (h : Asked t m m') (hm : m.Faithful t) :
    m'.Faithful t := by
  induction h with
  | refl => exact hm
  | subtype _ a b ih => exact (isSubtype_gives t a b).faithful ih
  | virtual _ type subsig ih => exact (resolveVirtual_gives t type subsig).faithful ih
  | method _ type subsig ih => exact (resolveMethod_gives t type subsig).faithful ih

/-- With a faithful memory `x` has the value `a`, and changes the memory by asking questions
only. -/
def Answers {α : Type} (t : ClassTable) (x : StateM Memo α) (a : α) : Prop :=
  ∀ m, Faithful t m → ∃ m', x.run m = (a, m') ∧ Asked t m m'

section Answers

variable {α β : Type} {t : ClassTable} {x : StateM Memo α} {a : α}

theorem answers_pure (t : ClassTable) (a : α) : Answers t (pure a) a := fun m _ => ⟨m, rfl, .refl⟩

theorem Gives.answers (hx : Gives t x a) (hask : ∀ m, Asked t m (x.run m).2) : Answers t x a := by
  intro m hm
  obtain ⟨m', hrun, -⟩ := hx m hm
  have h := hask m
  rw [hrun] at h
  exact ⟨m', hrun, h⟩

theorem Answers.map (hx : Answers t x a) (f : α → β) :
    Answers t (x >>= fun r => pure (f r)) (f a) := by
  intro m hm
  obtain ⟨m', hrun, hm'⟩ := hx m hm
  refine ⟨m', ?_, hm'⟩
  rw [StateT.run_bind, hrun]
  rfl

theorem isSubtype_answers (t : ClassTable) (a b : Ty) :
    Answers t (isSubtype t a b) (t.isSubtype a b) :=
  (isSubtype_gives t a b).answers fun _ => Asked.refl.subtype a b

theorem resolveVirtual_answers (t : ClassTable) (type : Ty) (subsig : String) :
    Answers t (resolveVirtual t type subsig) (t.resolveVirtual type subsig) :=
  (resolveVirtual_gives t type subsig).answers fun _ => Asked.refl.virtual type subsig

theorem resolveMethod_answers (t : ClassTable) (type : Ty) (subsig : String) :
    Answers t (resolveMethod t type subsig) (t.resolveMethod type subsig) :=
  (resolveMethod_gives t type subsig).answers fun _ => Asked.refl.method type subsig

end Answers

end Memo

/-! ## Targets of calls -/

namespace Call

/-- The target of a call that is looked for without a memory. -/
def resolve (t : ClassTable) (c : Call) (recv : Option Ty) : Target :=
  match c.ref.subsig? with
  | none => .error .absent
  | some subsig =>
    match c.kind with
    | .static =>
      match c.ref.cls with
      | none => .error .absent
      | some type =>
        (t.resolveMethod type subsig).map (require t type subsig (fun m => m.static) .notStatic)
    | .special =>
      match c.ref.cls with
      | none => .error .absent
      | some type =>
        (t.resolveMethod type subsig).map
          (require t type subsig (fun m => !m.static && !m.abstract) .notConcrete)
    | .virtual | .interface =>
      match recv with
      | some type => t.resolveVirtual type subsig
      | none => .error (.noReceiver c.kind (Fault.shown c.text?))
    | .other _ => .error (.unknownCallKind c.kind)

theorem target_answers (t : ClassTable) (c : Call) (recv : Option Ty) :
    Memo.Answers t (c.target t recv) (c.resolve t recv) := by
  obtain ⟨kind, ref, v, args, result, label⟩ := c
  unfold target resolve
  dsimp only
  cases ref.subsig? with
  | none => exact Memo.answers_pure t _
  | some subsig =>
    cases kind with
    | static | special =>
      cases ref.cls with
      | none => exact Memo.answers_pure t _
      | some type => exact (Memo.resolveMethod_answers t _ _).map _
    | virtual | interface =>
      cases recv with
      | none => exact Memo.answers_pure t _
      | some type => exact Memo.resolveVirtual_answers t _ _
    | other code => exact Memo.answers_pure t _

end Call

end PointsTo
