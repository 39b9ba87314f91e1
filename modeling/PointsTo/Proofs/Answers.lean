import PointsTo.Proofs.Declarations

/-!
# Questions do not change answers

A memory need not be faithful: if classes are declared between questions, it goes on giving old
answers. But asking never changes an answer, whatever the memory, since what is remembered is what
was answered.

1. After a subtype question every subtype question has the answer that it had before
   (`agrees_isSubtype`). So the selection of methods, which asks such questions on its way, has the
   same outcome before and after.
2. The same then holds of resolutions and of the targets of calls (`Call.target_settled`).
3. Whatever the memory, only a search without end is left without an answer
   (`Memo.unending_of_resolveVirtual`), so a fault of a call is one for which there is reason in the
   class table (`Call.warrants_of_target`).
-/

namespace PointsTo

namespace Memo

variable {α β : Type} {t : ClassTable} {m m' m'' : Memo} {a b : Ty}

/-- The answer to a question. -/
def answer (x : StateM Memo α) (m : Memo) : α := (x.run m).1

/-- What is remembered after a question. -/
def after (x : StateM Memo α) (m : Memo) : Memo := (x.run m).2

theorem answer_bind (x : StateM Memo α) (f : α → StateM Memo β) (m : Memo) :
    answer (x >>= f) m = answer (f (answer x m)) (after x m) := rfl

theorem after_bind (x : StateM Memo α) (f : α → StateM Memo β) (m : Memo) :
    after (x >>= f) m = after (f (answer x m)) (after x m) := rfl

/-- Related memories give the same answer, and asking keeps them related. -/
def Settled (r : Memo → Memo → Prop) (x : StateM Memo α) : Prop :=
  ∀ m m', r m m' → answer x m' = answer x m ∧ r m (after x m')

section Settled

variable {r : Memo → Memo → Prop} {x : StateM Memo α}

theorem settled_pure (r : Memo → Memo → Prop) (a : α) : Settled r (pure a) := fun _ _ h => ⟨rfl, h⟩

theorem Settled.bind {f : α → StateM Memo β} (hrefl : ∀ m, r m m) (hx : Settled r x)
    (hf : ∀ a, Settled r (f a)) :
    Settled r (x >>= f) := by
  intro m m' h
  obtain ⟨heq, hr'⟩ := hx m m' h
  obtain ⟨-, hr⟩ := hx m m (hrefl m)
  obtain ⟨hans', hrel'⟩ := hf (answer x m) m _ hr'
  obtain ⟨hans, -⟩ := hf (answer x m) m _ hr
  rw [answer_bind, answer_bind, after_bind, heq, hans', hans]
  exact ⟨rfl, hrel'⟩

end Settled

/-! ## Subtype questions -/

/-- The memory with one more answer to a subtype question. -/
def addSubtype (m : Memo) (a b : Ty) (r : Bool) : Memo :=
  { m with subtypes := ((a, b), r) :: m.subtypes }

/-- The two memories give the same answers to subtype questions. -/
def SameSubtypes (t : ClassTable) (m m' : Memo) : Prop :=
  ∀ a b, answer (isSubtype t a b) m' = answer (isSubtype t a b) m

/-- The two memories give the same answers to subtype questions, and remember the same
resolutions. -/
structure Agrees (t : ClassTable) (m m' : Memo) : Prop where
  subtypes : SameSubtypes t m m'
  virtuals : m'.virtuals = m.virtuals
  methods : m'.methods = m.methods

theorem Agrees.refl (t : ClassTable) (m : Memo) : Agrees t m m := ⟨fun _ _ => rfl, rfl, rfl⟩

theorem Agrees.trans (h : Agrees t m m') (h' : Agrees t m' m'') : Agrees t m m'' :=
  ⟨fun a b => (h'.subtypes a b).trans (h.subtypes a b), h'.virtuals.trans h.virtuals,
    h'.methods.trans h.methods⟩

/-- The question that an unanswered subtype question comes down to: arrays of references are
compared by their elements, and other types by the table. -/
def compare (t : ClassTable) : Ty → Ty → StateM Memo Bool
  | .array a, .array b => if a.isReference && b.isReference then isSubtype t a b else pure false
  | a, b => pure (t.isSubtype a b)

theorem compare_of_not_arrays (h : ∀ x y, a = .array x → b = .array y → False) :
    compare t a b = pure (t.isSubtype a b) := by
  cases a with
  | array x =>
    cases b with
    | array y => exact (h x y rfl rfl).elim
    | _ => rfl
  | _ => rfl

theorem run_isSubtype (t : ClassTable) (a b : Ty) (m : Memo) : (isSubtype t a b).run m =
    if a = b then (true, m)
    else
      match m.subtypes.lookup (a, b) with
      | some r => (r, m)
      | none =>
        (answer (compare t a b) m, (after (compare t a b) m).addSubtype a b
          (answer (compare t a b) m)) := by
  unfold isSubtype
  split_ifs with heq
  · rfl
  show StateT.run (match m.subtypes.lookup (a, b) with | some r => _ | none => _) m = _
  cases m.subtypes.lookup (a, b) with
  | some r => rfl
  | none =>
    dsimp only
    split
    · rw [compare]
      split_ifs <;> rfl
    · next hflat => rw [compare_of_not_arrays hflat]; rfl

theorem answer_isSubtype_of_ne (hne : a ≠ b) (m : Memo) : answer (isSubtype t a b) m =
    (m.subtypes.lookup (a, b)).getD (answer (compare t a b) m) := by
  unfold answer
  rw [run_isSubtype, if_neg hne]
  cases m.subtypes.lookup (a, b) <;> rfl

theorem answer_isSubtype_self (t : ClassTable) (a : Ty) (m : Memo) :
    answer (isSubtype t a a) m = true := by
  unfold answer
  rw [run_isSubtype, if_pos rfl]

/-- Elements of arrays decide what comparing the arrays answers. -/
theorem answer_compare_congr (h : ∀ x, a = .array x →
    ∀ y, answer (isSubtype t x y) m' = answer (isSubtype t x y) m) :
    answer (compare t a b) m' = answer (compare t a b) m := by
  cases a with
  | array x =>
    cases b with
    | array y =>
      rw [compare]
      split_ifs
      · exact h x rfl y
      · rfl
    | _ => rfl
  | _ => rfl

/-- An answer may be remembered without changing any answer. -/
theorem agrees_addSubtype (hne : a ≠ b) (m : Memo) :
    Agrees t m (m.addSubtype a b (answer (isSubtype t a b) m)) := by
  have hstep : ∀ x y, answer (compare t x y) (m.addSubtype a b (answer (isSubtype t a b) m)) =
      answer (compare t x y) m → answer (isSubtype t x y)
        (m.addSubtype a b (answer (isSubtype t a b) m)) =
      answer (isSubtype t x y) m := by
    intro x y hcompare
    by_cases hxy : x = y
    · rw [hxy, answer_isSubtype_self, answer_isSubtype_self]
    rw [answer_isSubtype_of_ne hxy, hcompare]
    unfold addSubtype
    rw [List.lookup_cons]
    split
    · next heq =>
      obtain ⟨rfl, rfl⟩ := Prod.mk.inj (eq_of_beq heq)
      rfl
    · exact (answer_isSubtype_of_ne hxy m).symm
  refine ⟨fun x => ?_, rfl, rfl⟩
  induction x with
  | array e ih =>
    intro y
    refine hstep _ y (answer_compare_congr ?_)
    rintro _ ⟨⟩
    exact ih
  | _ => exact fun y => hstep _ y rfl

theorem agrees_compare (h : ∀ x, a = .array x → ∀ y, Agrees t m (after (isSubtype t x y) m)) :
    Agrees t m (after (compare t a b) m) := by
  cases a with
  | array x =>
    cases b with
    | array y =>
      rw [compare]
      split_ifs
      · exact h x rfl y
      · exact .refl t m
    | _ => exact .refl t m
  | _ => exact .refl t m

/-- A subtype question changes no answer. -/
theorem agrees_isSubtype (t : ClassTable) (a b : Ty) (m : Memo) :
    Agrees t m (after (isSubtype t a b) m) := by
  have hstep : ∀ a b m, Agrees t m (after (compare t a b) m) →
      Agrees t m (after (isSubtype t a b) m) := by
    intro a b m h
    unfold after at h ⊢
    rw [run_isSubtype]
    split_ifs with hne
    · exact .refl t m
    cases hl : m.subtypes.lookup (a, b) with
    | some r => exact .refl t m
    | none =>
      -- what is remembered is the answer, before and after the elements were compared
      have hans : answer (compare t a b) m = answer (isSubtype t a b)
          (after (compare t a b) m) := by
        rw [after, h.subtypes, answer_isSubtype_of_ne hne, hl]
        rfl
      dsimp only
      rw [hans]
      exact h.trans (agrees_addSubtype hne _)
  induction a generalizing b m with
  | array x ih =>
    refine hstep _ b m (agrees_compare ?_)
    rintro _ ⟨⟩ y
    exact ih y m
  | _ => exact hstep _ b m (agrees_compare nofun)

/-- Only what is remembered about subtypes decides a subtype question. -/
theorem sameSubtypes_of_eq (h : m'.subtypes = m.subtypes) : SameSubtypes t m m' := by
  have hstep : ∀ a b, answer (compare t a b) m' = answer (compare t a b) m →
      answer (isSubtype t a b) m' = answer (isSubtype t a b) m := by
    intro a b hcompare
    by_cases hab : a = b
    · rw [hab, answer_isSubtype_self, answer_isSubtype_self]
    · rw [answer_isSubtype_of_ne hab, answer_isSubtype_of_ne hab, h, hcompare]
  intro a
  induction a with
  | array x ih =>
    refine fun b => hstep _ b (answer_compare_congr ?_)
    rintro _ ⟨⟩
    exact ih
  | _ => exact fun b => hstep _ b rfl

theorem isSubtype_agrees (t : ClassTable) (a b : Ty) :
    Settled (Agrees t) (isSubtype t a b) := fun _ m' h =>
  ⟨h.subtypes a b, h.trans (agrees_isSubtype t a b m')⟩

theorem isSubtype_sameSubtypes (t : ClassTable) (a b : Ty) :
    Settled (SameSubtypes t) (isSubtype t a b) :=
  fun _ m' h => ⟨h a b, fun x y => ((agrees_isSubtype t a b m').subtypes x y).trans (h x y)⟩

/-! ## Selecting methods -/

section Selection

variable {r : Memo → Memo → Prop} (hrefl : ∀ m, r m m)

include hrefl

theorem keepM_settled {p : α → StateM Memo Bool} (h : ∀ a, Settled r (p a)) :
    ∀ l : List α, Settled r (keepM p l)
  | [] => settled_pure r []
  | a :: as => (h a).bind hrefl fun _ => (keepM_settled h as).bind hrefl fun _ => settled_pure r _

theorem anyM_settled {p : α → StateM Memo Bool} (h : ∀ a, Settled r (p a)) :
    ∀ l : List α, Settled r (anyM p l)
  | [] => settled_pure r false
  | a :: as => by
    refine (h a).bind hrefl fun found => ?_
    cases found with
    | true => exact settled_pure r true
    | false => exact anyM_settled h as

variable (hsub : ∀ a b, Settled r (isSubtype t a b))

include hsub

theorem maximallySpecific_settled (ds : List Method) :
    Settled r (ClassTable.maximallySpecific (isSubtype t) ds) := by
  refine keepM_settled hrefl (fun d => ?_) ds
  refine (anyM_settled hrefl (fun o => ?_) ds).bind hrefl fun _ => settled_pure _ _
  split_ifs
  · exact settled_pure _ _
  · exact hsub _ _

theorem search_settled (p : Method → Bool) (found : Method → Resolution)
    (pick : List Method → Resolution) (c subsig : String) :
    Settled r (t.search (isSubtype t) p found pick c subsig) := by
  unfold ClassTable.search
  split
  · exact settled_pure _ _
  · split_ifs
    · exact settled_pure _ _
    · exact (maximallySpecific_settled hrefl hsub _).bind hrefl fun _ => settled_pure _ _

theorem selectVirtual_settled (type : Ty) (subsig : String) :
    Settled r (t.selectVirtual (isSubtype t) type subsig) := by
  unfold ClassTable.selectVirtual
  split
  · exact settled_pure _ _
  · exact search_settled hrefl hsub _ _ _ _ _

theorem selectMethod_settled (type : Ty) (subsig : String) :
    Settled r (t.selectMethod (isSubtype t) type subsig) := by
  unfold ClassTable.selectMethod
  split
  · exact search_settled hrefl hsub _ _ _ _ _
  · exact settled_pure _ _

end Selection

/-! ## Resolutions -/

/-- The two memories give the same answers. -/
structure Same (t : ClassTable) (m m' : Memo) : Prop where
  subtypes : SameSubtypes t m m'
  virtuals : ∀ type subsig,
    answer (resolveVirtual t type subsig) m' = answer (resolveVirtual t type subsig) m
  methods : ∀ type subsig,
    answer (resolveMethod t type subsig) m' = answer (resolveMethod t type subsig) m

theorem Same.refl (t : ClassTable) (m : Memo) : Same t m m :=
  ⟨fun _ _ => rfl, fun _ _ => rfl, fun _ _ => rfl⟩

theorem Same.trans (h : Same t m m') (h' : Same t m' m'') : Same t m m'' :=
  ⟨fun a b => (h'.subtypes a b).trans (h.subtypes a b),
    fun s n => (h'.virtuals s n).trans (h.virtuals s n),
    fun s n => (h'.methods s n).trans (h.methods s n)⟩

variable {type : Ty} {subsig : String}

theorem run_findOut (x : StateM Memo Target) (put : Resolution → Memo → Memo) (m : Memo) :
    (findOut x put).run m =
      (answer x m, match answer x m with
        | .ok r => put r (after x m)
        | .error _ => after x m) := by
  unfold findOut answer after
  rw [StateT.run_bind]
  generalize x.run m = a
  obtain ⟨_ | r, m'⟩ := a <;> rfl

theorem run_resolveVirtual (t : ClassTable) (type : Ty) (subsig : String) (m : Memo) :
    (resolveVirtual t type subsig).run m =
      match m.virtuals.lookup (type, subsig) with
      | some r => (.ok r, m)
      | none => (findOut (t.selectVirtual (isSubtype t) type subsig) fun r m =>
          { m with virtuals := ((type, subsig), r) :: m.virtuals }).run m := by
  unfold resolveVirtual
  show StateT.run (match m.virtuals.lookup (type, subsig) with | some r => _ | none => _) m = _
  cases m.virtuals.lookup (type, subsig) <;> rfl

theorem run_resolveMethod (t : ClassTable) (type : Ty) (subsig : String) (m : Memo) :
    (resolveMethod t type subsig).run m =
      match m.methods.lookup (type, subsig) with
      | some r => (.ok r, m)
      | none => (findOut (t.selectMethod (isSubtype t) type subsig) fun r m =>
          { m with methods := ((type, subsig), r) :: m.methods }).run m := by
  unfold resolveMethod
  show StateT.run (match m.methods.lookup (type, subsig) with | some r => _ | none => _) m = _
  cases m.methods.lookup (type, subsig) <;> rfl

theorem answer_resolveVirtual (t : ClassTable) (type : Ty) (subsig : String) (m : Memo) :
    answer (resolveVirtual t type subsig) m = ((m.virtuals.lookup (type, subsig)).map .ok).getD
      (answer (t.selectVirtual (isSubtype t) type subsig) m) := by
  rw [answer, run_resolveVirtual]
  cases m.virtuals.lookup (type, subsig) with
  | some r => rfl
  | none => rw [run_findOut]; rfl

theorem answer_resolveMethod (t : ClassTable) (type : Ty) (subsig : String) (m : Memo) :
    answer (resolveMethod t type subsig) m = ((m.methods.lookup (type, subsig)).map .ok).getD
      (answer (t.selectMethod (isSubtype t) type subsig) m) := by
  rw [answer, run_resolveMethod]
  cases m.methods.lookup (type, subsig) with
  | some r => rfl
  | none => rw [run_findOut]; rfl

/-- What is remembered about resolutions decides one together with the answers to subtype
questions. -/
theorem same_of_lookup (hsub : SameSubtypes t m m')
    (hvirtuals : ∀ k, m'.virtuals.lookup k = m.virtuals.lookup k ∨
      ∃ r, m'.virtuals.lookup k = some r ∧ answer (resolveVirtual t k.1 k.2) m = .ok r)
    (hmethods : ∀ k, m'.methods.lookup k = m.methods.lookup k ∨
      ∃ r, m'.methods.lookup k = some r ∧ answer (resolveMethod t k.1 k.2) m = .ok r) :
    Same t m m' := by
  refine ⟨hsub, fun type subsig => ?_, fun type subsig => ?_⟩
  · rw [answer_resolveVirtual t type subsig m']
    rcases hvirtuals (type, subsig) with h | ⟨r, h, hr⟩
    · rw [h, answer_resolveVirtual,
        (selectVirtual_settled (fun _ _ _ => rfl) (isSubtype_sameSubtypes t) type subsig
          m m' hsub).1]
    · rw [h, hr]
      rfl
  · rw [answer_resolveMethod t type subsig m']
    rcases hmethods (type, subsig) with h | ⟨r, h, hr⟩
    · rw [h, answer_resolveMethod,
        (selectMethod_settled (fun _ _ _ => rfl) (isSubtype_sameSubtypes t) type subsig
          m m' hsub).1]
    · rw [h, hr]
      rfl

theorem Agrees.same (h : Agrees t m m') : Same t m m' :=
  same_of_lookup h.subtypes (fun _ => Or.inl (by rw [h.virtuals]))
    fun _ => Or.inl (by rw [h.methods])

/-- Looking up a list with one more entry. -/
theorem lookup_cons_or {κ : Type} [BEq κ] [LawfulBEq κ] {k k' : κ} {r : α} {l : List (κ × α)} :
    ((k, r) :: l).lookup k' = l.lookup k' ∨ (k' = k ∧ ((k, r) :: l).lookup k' = some r) := by
  rw [List.lookup_cons]
  split
  · next heq => exact Or.inr ⟨eq_of_beq heq, rfl⟩
  · exact Or.inl rfl

theorem same_addVirtual (h : Agrees t m m') {r : Resolution}
    (hr : answer (resolveVirtual t type subsig) m = .ok r) :
    Same t m { m' with virtuals := ((type, subsig), r) :: m'.virtuals } := by
  have hsub : SameSubtypes t m' { m' with virtuals := ((type, subsig), r) :: m'.virtuals } :=
    sameSubtypes_of_eq rfl
  refine same_of_lookup (fun a b => (hsub a b).trans (h.subtypes a b)) (fun k => ?_)
    fun k => Or.inl (by rw [← h.methods])
  rw [← h.virtuals]
  refine lookup_cons_or.imp_right ?_
  rintro ⟨rfl, hl⟩
  exact ⟨r, hl, hr⟩

theorem same_addMethod (h : Agrees t m m') {r : Resolution}
    (hr : answer (resolveMethod t type subsig) m = .ok r) :
    Same t m { m' with methods := ((type, subsig), r) :: m'.methods } := by
  have hsub : SameSubtypes t m' { m' with methods := ((type, subsig), r) :: m'.methods } :=
    sameSubtypes_of_eq rfl
  refine same_of_lookup (fun a b => (hsub a b).trans (h.subtypes a b))
    (fun k => Or.inl (by rw [← h.virtuals])) fun k => ?_
  rw [← h.methods]
  refine lookup_cons_or.imp_right ?_
  rintro ⟨rfl, hl⟩
  exact ⟨r, hl, hr⟩

/-- A resolution changes no answer. -/
theorem same_resolveVirtual (t : ClassTable) (type : Ty) (subsig : String) (m : Memo) :
    Same t m (after (resolveVirtual t type subsig) m) := by
  have hans := answer_resolveVirtual t type subsig m
  have hagrees : Agrees t m (after (t.selectVirtual (isSubtype t) type subsig) m) :=
    (selectVirtual_settled (Agrees.refl t) (isSubtype_agrees t) type subsig m m (.refl t m)).2
  rw [after, run_resolveVirtual]
  cases hl : m.virtuals.lookup (type, subsig) with
  | some r => exact .refl t m
  | none =>
    dsimp only
    rw [run_findOut]
    dsimp only
    rw [hl] at hans
    cases hr : answer (t.selectVirtual (isSubtype t) type subsig) m with
    | error f => exact hagrees.same
    | ok r => exact same_addVirtual hagrees (hans.trans hr)

theorem same_resolveMethod (t : ClassTable) (type : Ty) (subsig : String) (m : Memo) :
    Same t m (after (resolveMethod t type subsig) m) := by
  have hans := answer_resolveMethod t type subsig m
  have hagrees : Agrees t m (after (t.selectMethod (isSubtype t) type subsig) m) :=
    (selectMethod_settled (Agrees.refl t) (isSubtype_agrees t) type subsig m m (.refl t m)).2
  rw [after, run_resolveMethod]
  cases hl : m.methods.lookup (type, subsig) with
  | some r => exact .refl t m
  | none =>
    dsimp only
    rw [run_findOut]
    dsimp only
    rw [hl] at hans
    cases hr : answer (t.selectMethod (isSubtype t) type subsig) m with
    | error f => exact hagrees.same
    | ok r => exact same_addMethod hagrees (hans.trans hr)

theorem isSubtype_settled (t : ClassTable) (a b : Ty) :
    Settled (Same t) (isSubtype t a b) := fun _ m' h =>
  ⟨h.subtypes a b, h.trans (agrees_isSubtype t a b m').same⟩

theorem resolveVirtual_settled (t : ClassTable) (type : Ty) (subsig : String) :
    Settled (Same t) (resolveVirtual t type subsig) := fun _ m' h =>
  ⟨h.virtuals type subsig, h.trans (same_resolveVirtual t type subsig m')⟩

theorem resolveMethod_settled (t : ClassTable) (type : Ty) (subsig : String) :
    Settled (Same t) (resolveMethod t type subsig) := fun _ m' h =>
  ⟨h.methods type subsig, h.trans (same_resolveMethod t type subsig m')⟩

/-- No sequence of questions changes an answer. -/
theorem Asked.same (h : Asked t m m') : Same t m m' := by
  induction h with
  | refl => exact .refl t m
  | subtype _ a b ih => exact (isSubtype_settled t a b m _ ih).2
  | virtual _ type subsig ih => exact (resolveVirtual_settled t type subsig m _ ih).2
  | method _ type subsig ih => exact (resolveMethod_settled t type subsig m _ ih).2

/-! ## Searches -/

theorem answer_search (t : ClassTable) (p : Method → Bool) (found : Method → Resolution)
    (pick : List Method → Resolution) (c subsig : String) (m : Memo) :
    answer (t.search (isSubtype t) p found pick c subsig) m =
      t.searched (fun ds => answer (ClassTable.maximallySpecific (isSubtype t) ds) m) p found pick c
        subsig := by
  unfold ClassTable.search ClassTable.searched
  cases t.firstDeclaring p subsig (t.chain c) with
  | some m => rfl
  | none =>
    dsimp only
    split_ifs
    · rfl
    · rw [answer_bind]
      rfl

theorem answer_selectVirtual (t : ClassTable) (type : Ty) (subsig : String) (m : Memo) :
    answer (t.selectVirtual (isSubtype t) type subsig) m =
      t.chooseVirtual (fun ds => answer (ClassTable.maximallySpecific (isSubtype t) ds) m) type
        subsig := by
  unfold ClassTable.selectVirtual ClassTable.chooseVirtual
  cases t.receiverClass? type with
  | none => rfl
  | some c => exact answer_search t _ _ _ c subsig m

theorem unending_of_resolveVirtual {f : Fault}
    (h : answer (resolveVirtual t type subsig) m = .error f) :
    t.Unending f := by
  rw [answer_resolveVirtual] at h
  cases hl : m.virtuals.lookup (type, subsig) with
  | some r =>
    rw [hl] at h
    exact nomatch h
  | none =>
    rw [hl, Option.map_none, Option.getD_none, answer_selectVirtual] at h
    unfold ClassTable.chooseVirtual at h
    split at h
    · exact nomatch h
    · exact ClassTable.unending_of_searched h

theorem unending_of_resolveMethod {f : Fault}
    (h : answer (resolveMethod t type subsig) m = .error f) :
    t.Unending f := by
  rw [answer_resolveMethod] at h
  cases hl : m.methods.lookup (type, subsig) with
  | some r =>
    rw [hl] at h
    exact nomatch h
  | none =>
    rw [hl, Option.map_none, Option.getD_none] at h
    unfold ClassTable.selectMethod at h
    split at h
    · rw [answer_search] at h
      exact ClassTable.unending_of_searched h
    · exact nomatch h

end Memo

/-! ## Targets of calls -/

theorem Call.target_settled (t : ClassTable) (c : Call) (recv : Option Ty) :
    Memo.Settled (Memo.Same t) (c.target t recv) := by
  have hmap : ∀ {f : Target → Target} {x : StateM Memo Target}, Memo.Settled (Memo.Same t) x →
      Memo.Settled (Memo.Same t) (x >>= fun r => pure (f r)) := fun hx =>
    hx.bind (Memo.Same.refl t) fun _ => Memo.settled_pure _ _
  obtain ⟨kind, ref, v, args, result, label⟩ := c
  unfold target
  dsimp only
  cases ref.subsig? with
  | none => exact Memo.settled_pure _ _
  | some subsig =>
    cases kind with
    | static | special =>
      cases ref.cls with
      | none => exact Memo.settled_pure _ _
      | some type => exact hmap (Memo.resolveMethod_settled t _ _)
    | virtual | interface =>
      cases recv with
      | none => exact Memo.settled_pure _ _
      | some type => exact Memo.resolveVirtual_settled t _ _
    | other code => exact Memo.settled_pure _ _

/-- There is reason in the table for a fault of a run: no run is without end, and a search is so
only if the superclass chain is. -/
def ClassTable.Warrants (t : ClassTable) : Fault → Prop
  | .endlessRun => False
  | .endlessChain c => ¬ Acc t.IsSuper c
  | _ => True

theorem ClassTable.Unending.warrants {t : ClassTable} {f : Fault} (h : t.Unending f) :
    t.Warrants f := by
  obtain ⟨c, rfl, hc⟩ := h
  exact hc

/-- Turning down methods is no fault. -/
theorem Call.of_map_eq_error {g : Resolution → Resolution} {x : Target} {f : Fault}
    (h : x.map g = .error f) :
    x = .error f := by
  cases x with
  | error f' => exact congrArg Except.error (Except.error.inj h)
  | ok r => exact nomatch h

theorem Call.warrants_of_target {t : ClassTable} {c : Call} {recv : Option Ty}
    {memo : Memo} {f : Fault}
    (h : Memo.answer (c.target t recv) memo = .error f) : t.Warrants f := by
  obtain ⟨kind, ref, v, args, result, label⟩ := c
  unfold target at h
  dsimp only at h
  cases hsubsig : ref.subsig? with
  | none =>
    rw [hsubsig] at h
    cases h
    trivial
  | some subsig =>
    rw [hsubsig] at h
    dsimp only at h
    cases kind with
    | static | special =>
      cases hcls : ref.cls with
      | none =>
        rw [hcls] at h
        cases h
        trivial
      | some type =>
        rw [hcls] at h
        exact (Memo.unending_of_resolveMethod (of_map_eq_error h)).warrants
    | virtual | interface =>
      cases recv with
      | none =>
        cases h
        trivial
      | some type => exact (Memo.unending_of_resolveVirtual h).warrants
    | other code =>
      cases h
      trivial

end PointsTo
