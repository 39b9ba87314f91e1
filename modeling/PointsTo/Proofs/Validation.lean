import PointsTo.Program.Validation
import PointsTo.Proofs.ClassTable
import PointsTo.Proofs.Sorted

/-!
# Programs without violations

In a program without violations every entry is a method of the class table, and every statement of
every method has the operands that it needs (`Program.of_violations_eq_nil`,
`Method.instr?_of_checkStmt`), which are variables of the method (`Method.owner_of_checkStmt`).
-/

namespace PointsTo

/-! ## Statements -/

theorem allSome_map_some {α : Type} (l : List α) : allSome (l.map some) = some l := by
  induction l with
  | nil => rfl
  | cons a l ih => rw [List.map_cons, allSome, ih, Option.map_some]

theorem MethodRef.subsig?_ofSignature (s : Signature) :
    (ofSignature s).subsig? = some s.sub.text := by
  have hsub : (ofSignature s).sub? = some s.sub := by
    unfold sub? ofSignature
    dsimp only
    rw [allSome_map_some]
    rfl
  unfold subsig?
  rw [hsub]
  rfl

theorem allSome_exists {α : Type} {l : List (Option α)} (h : ∀ a ∈ l, ∃ x, a = some x) :
    ∃ as, allSome l = some as := by
  induction l with
  | nil => exact ⟨[], rfl⟩
  | cons a l ih =>
    obtain ⟨as, has⟩ := ih fun x hx => h x (List.mem_cons_of_mem _ hx)
    obtain ⟨x, rfl⟩ := h a List.mem_cons_self
    exact ⟨x :: as, by rw [allSome, has]; rfl⟩

/-- The variables of a statement. -/
def Instr.vars : Instr → List Var
  | new site => [site.lhs]
  | assign x y => [x, y]
  | cast x y _ => [x, y]
  | load x b _ => [x, b]
  | store b _ y => [b, y]
  | staticLoad x _ => [x]
  | staticStore _ y => [y]
  | arrayLoad x b => [x, b]
  | arrayStore b y => [b, y]
  | call c => c.call.recv.toList ++ c.args ++ c.call.result.toList
  | ret => []

theorem mem_of_allSome {α : Type} {l : List (Option α)} {as : List α} (h : allSome l = some as) :
    ∀ a ∈ as, some a ∈ l := by
  induction l generalizing as with
  | nil =>
    obtain rfl := Option.some.inj h
    exact fun a ha => absurd ha List.not_mem_nil
  | cons x l ih =>
    cases x with
    | none => exact nomatch h
    | some x =>
      obtain ⟨as', has, rfl⟩ := Option.map_eq_some_iff.mp h
      intro a ha
      rcases List.mem_cons.mp ha with rfl | ha
      · exact List.mem_cons_self
      · exact List.mem_cons_of_mem _ (ih has a ha)

namespace Method

variable {t : ClassTable} {m : Method} {s : Stmt} {i : Instr}

theorem exists_of_checkVars {vs : List (Option Var)} (h : m.checkVars vs = .ok ()) :
    ∀ v ∈ vs, ∃ x, v = some x := by
  induction vs with
  | nil => exact fun v hv => absurd hv List.not_mem_nil
  | cons v vs ih =>
    unfold checkVars at h
    cases v with
    | none => exact nomatch h
    | some x =>
      dsimp only at h
      split_ifs at h
      intro v hv
      rcases List.mem_cons.mp hv with rfl | hv
      · exact ⟨x, rfl⟩
      · exact ih h v hv

theorem owner_of_checkVars {vs : List (Option Var)} (h : m.checkVars vs = .ok ()) :
    ∀ v, some v ∈ vs → v.owner = m.id := by
  induction vs with
  | nil => exact fun v hv => absurd hv List.not_mem_nil
  | cons v vs ih =>
    unfold checkVars at h
    cases v with
    | none => exact nomatch h
    | some x =>
      dsimp only at h
      split_ifs at h with hx
      intro v hv
      rcases List.mem_cons.mp hv with heq | hv
      · exact Option.some.inj heq ▸ hx.1
      · exact ih h v hv

theorem exists_of_checkField {static : Bool} {f : Option Field} (h : checkField static f = .ok ()) :
    ∃ x, f = some x := by
  cases f with
  | none => exact nomatch h
  | some f => exact ⟨f, rfl⟩

theorem exists_of_checkAllocation {type : Option Ty} (h : checkAllocation t type = .ok ()) :
    ∃ x, type = some x := by
  cases type with
  | none => exact nomatch h
  | some type => exact ⟨type, rfl⟩

/-! ### Checks in sequence -/

section Sequence

variable {ε : Type} {f : PUnit → Except ε Unit}

theorem of_seq_eq_ok {x : Except ε Unit} (h : (x >>= f) = .ok ()) : x = .ok () ∧ f () = .ok () := by
  cases x with
  | error e => exact nomatch h
  | ok _ => exact ⟨rfl, h⟩

theorem of_guard_eq_ok {p : Prop} [Decidable p] {e : ε}
    (h : (if p then throw e >>= f else f ()) = .ok ()) : ¬ p ∧ f () = .ok () := by
  split_ifs at h with hp
  · exact nomatch h
  · exact ⟨hp, h⟩

end Sequence

/-- What a call without a defect satisfies. -/
theorem of_checkCall {c : Call} (h : m.checkCall c = .ok ()) :
    c.args.length = c.ref.params.length ∧ (c.kind ≠ .static → c.recv.isSome) ∧
      m.checkVars (c.recv.toList.map some ++ c.result.toList.map some ++ c.args) = .ok () := by
  unfold checkCall at h
  obtain ⟨-, h⟩ := of_guard_eq_ok h
  obtain ⟨hlen, h⟩ := of_guard_eq_ok h
  obtain ⟨-, h⟩ := of_guard_eq_ok h
  obtain ⟨hrecv, h⟩ := of_guard_eq_ok h
  refine ⟨not_not.mp hlen, fun hkind => ?_, h⟩
  simpa [hkind, Option.isSome_iff_ne_none] using hrecv

/-- A statement without a defect has the operands that it needs. -/
theorem instr?_of_checkStmt (h : m.checkStmt t s = .ok ()) : ∃ i, s.instr? = some i := by
  obtain ⟨id, op⟩ := s
  unfold checkStmt at h
  obtain ⟨-, hop⟩ := of_guard_eq_ok h
  clear h
  cases op with
  | new x type =>
    obtain ⟨htype, hvars⟩ := of_seq_eq_ok hop
    obtain ⟨type, rfl⟩ := exists_of_checkAllocation htype
    obtain ⟨x, rfl⟩ := exists_of_checkVars hvars x (by simp)
    exact ⟨_, rfl⟩
  | assign x y =>
    obtain ⟨x, rfl⟩ := exists_of_checkVars hop x (by simp)
    obtain ⟨y, rfl⟩ := exists_of_checkVars hop y (by simp)
    exact ⟨_, rfl⟩
  | cast x y type =>
    obtain ⟨htype, hvars⟩ := of_guard_eq_ok hop
    obtain ⟨type, rfl⟩ := Option.ne_none_iff_exists'.mp (mt Option.isNone_iff_eq_none.mpr htype)
    obtain ⟨x, rfl⟩ := exists_of_checkVars hvars x (by simp)
    obtain ⟨y, rfl⟩ := exists_of_checkVars hvars y (by simp)
    exact ⟨_, rfl⟩
  | load x b f =>
    obtain ⟨hfield, hvars⟩ := of_seq_eq_ok hop
    obtain ⟨f, rfl⟩ := exists_of_checkField hfield
    obtain ⟨x, rfl⟩ := exists_of_checkVars hvars x (by simp)
    obtain ⟨b, rfl⟩ := exists_of_checkVars hvars b (by simp)
    exact ⟨_, rfl⟩
  | store b f y =>
    obtain ⟨hfield, hvars⟩ := of_seq_eq_ok hop
    obtain ⟨f, rfl⟩ := exists_of_checkField hfield
    obtain ⟨b, rfl⟩ := exists_of_checkVars hvars b (by simp)
    obtain ⟨y, rfl⟩ := exists_of_checkVars hvars y (by simp)
    exact ⟨_, rfl⟩
  | staticLoad x f =>
    obtain ⟨hfield, hvars⟩ := of_seq_eq_ok hop
    obtain ⟨f, rfl⟩ := exists_of_checkField hfield
    obtain ⟨x, rfl⟩ := exists_of_checkVars hvars x (by simp)
    exact ⟨_, rfl⟩
  | staticStore f y =>
    obtain ⟨hfield, hvars⟩ := of_seq_eq_ok hop
    obtain ⟨f, rfl⟩ := exists_of_checkField hfield
    obtain ⟨y, rfl⟩ := exists_of_checkVars hvars y (by simp)
    exact ⟨_, rfl⟩
  | arrayLoad x b =>
    obtain ⟨x, rfl⟩ := exists_of_checkVars hop x (by simp)
    obtain ⟨b, rfl⟩ := exists_of_checkVars hop b (by simp)
    exact ⟨_, rfl⟩
  | arrayStore b y =>
    obtain ⟨b, rfl⟩ := exists_of_checkVars hop b (by simp)
    obtain ⟨y, rfl⟩ := exists_of_checkVars hop y (by simp)
    exact ⟨_, rfl⟩
  | call c =>
    obtain ⟨-, -, hvars⟩ := of_checkCall hop
    obtain ⟨args, hargs⟩ :=
      allSome_exists fun a ha => exists_of_checkVars hvars a (List.mem_append_right _ ha)
    exact ⟨.call ⟨⟨id, .call c⟩, c, args⟩, by simp [Stmt.instr?, hargs]⟩
  | ret v => exact ⟨_, rfl⟩

theorem parent_of_checkStmt (h : m.checkStmt t s = .ok ()) : s.parent = m.id := by
  unfold checkStmt at h
  exact not_not.mp (of_guard_eq_ok h).1

/-- A statement without a defect returns a variable of its method. -/
theorem owner_of_returned? (h : m.checkStmt t s = .ok ()) {v : Var} (hv : s.returned? = some v) :
    v.owner = m.id := by
  obtain ⟨id, op⟩ := s
  unfold checkStmt at h
  obtain ⟨-, hop⟩ := of_guard_eq_ok h
  cases op with
  | ret x =>
    obtain rfl : x = some v := hv
    exact owner_of_checkVars hop v (by simp)
  | _ => exact nomatch hv

/-- A statement without a defect uses variables of its method only. -/
theorem owner_of_checkStmt (h : m.checkStmt t s = .ok ()) (hi : s.instr? = some i) :
    ∀ v ∈ i.vars, v.owner = m.id := by
  obtain ⟨id, op⟩ := s
  unfold checkStmt at h
  obtain ⟨-, hop⟩ := of_guard_eq_ok h
  have howner : ∀ {vs : List (Option Var)}, m.checkVars vs = .ok () → (∀ v ∈ i.vars, some v ∈ vs) →
      ∀ v ∈ i.vars, v.owner = m.id := fun hvs hsub v hv => owner_of_checkVars hvs v (hsub v hv)
  unfold Stmt.instr? at hi
  dsimp only at hi hop
  split at hi
  case h_1 | h_4 | h_5 | h_6 | h_7 =>
    obtain rfl := Option.some.inj hi
    exact howner (of_seq_eq_ok hop).2 (by simp [Instr.vars])
  case h_2 | h_8 | h_9 =>
    obtain rfl := Option.some.inj hi
    exact howner hop (by simp [Instr.vars])
  case h_3 =>
    obtain rfl := Option.some.inj hi
    exact howner (of_guard_eq_ok hop).2 (by simp [Instr.vars])
  case h_10 c =>
    obtain ⟨args, hargs, rfl⟩ := Option.map_eq_some_iff.mp hi
    obtain ⟨-, -, hvars⟩ := of_checkCall hop
    refine howner hvars fun v hv => ?_
    simp only [Instr.vars, List.mem_append] at hv
    rcases hv with (hv | hv) | hv
    · simp [Option.mem_toList.mp hv]
    · exact List.mem_append_right _ (mem_of_allSome hargs v hv)
    · simp [Option.mem_toList.mp hv]
  case h_11 =>
    obtain rfl := Option.some.inj hi
    simp [Instr.vars]
  case h_12 => exact nomatch hi

end Method

/-! ## Programs -/

namespace Program

variable {p : Program}

/-- What holds of a program without violations. -/
theorem of_violations_eq_nil (h : p.violations = []) :
    (∀ e ∈ p.entries, ∃ id m, e = some id ∧ p.table.method? id = some m ∧ m.hasBody) ∧
      ∀ id m, p.table.method? id = some m → ∀ s ∈ m.body, m.checkStmt p.table s = .ok () := by
  unfold violations at h
  obtain ⟨h, hmethods⟩ := List.append_eq_nil_iff.mp h
  obtain ⟨-, hentries⟩ := List.append_eq_nil_iff.mp h
  constructor
  · intro e he
    have hok := List.filterMap_eq_nil_iff.mp hentries e he
    unfold entryViolation? at hok
    split at hok
    · exact nomatch hok
    · next id =>
      split_ifs at hok with hbody
      obtain ⟨m, hm, hbody⟩ := (Option.any_eq_true _ _).mp hbody
      exact ⟨id, m, rfl, hm, hbody⟩
  · intro id m hm s hs
    have hmem : m ∈ p.methods := Text.mem_sortBy.mpr (ClassTable.mem_methods_of_method? hm)
    have hnone := List.flatMap_eq_nil_iff.mp hmethods m hmem
    unfold Method.violations at hnone
    have hstmt := List.filterMap_eq_nil_iff.mp (List.append_eq_nil_iff.mp hnone).2 s hs
    split at hstmt
    · exact nomatch hstmt
    · assumption

end Program

end PointsTo
