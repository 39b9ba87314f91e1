import Mathlib.Data.Set.Finite.List
import Mathlib.Order.WellFoundedSet
import PointsTo.Proofs.Selection

/-!
# References and virtual calls

1. A reference and a virtual call look for a method in the same places. The reference takes static
   methods on the superclass chain and abstract methods as well. Where there are none in the way,
   both find the same (`resolveMethod_of_resolveVirtual`, `resolveVirtual_of_resolveMethod`).
2. If supertypes do not go round in circles, all superclass chains are finite
   (`Acyclic.finiteChains`), and among declarations there is always one that no other overrides
   (`Acyclic.mostSpecific_ne_nil`). So a reference fails only if there is no declaration at all
   (`resolveMethod_eq_error_iff`).
3. A hierarchy answers accordingly as long as neither a class nor a method is declared after a
   question (`Hierarchy.resolveMethod_agrees_resolveVirtual`).
-/

namespace PointsTo

namespace ClassTable

variable {t t' : ClassTable} {c d i j k subsig : String} {m : Method} {id : MethodId} {type : Ty}
  {ds : List Method}

/-! ## The same search -/

/-- What is found without a test is found with every test that it passes. -/
theorem firstDeclaring_of_forall {p : Method → Bool} {cs : List String}
    (h : t.firstDeclaring (fun _ => true) subsig cs = some m) (hp : p m = true) :
    t.firstDeclaring p subsig cs = some m := by
  unfold firstDeclaring at h ⊢
  induction cs with
  | nil => exact h
  | cons d cs ih =>
    rw [List.findSome?_cons] at h ⊢
    cases hd : t.method? ⟨d, subsig⟩ with
    | none =>
      rw [hd] at h
      exact ih h
    | some m' =>
      rw [hd] at h
      obtain rfl : m' = m := Option.some.inj h
      rw [Option.filter_some, if_pos hp]

theorem firstDeclaring_eq_none_iff {cs : List String} :
    t.firstDeclaring (fun _ => true) subsig cs = none ↔ ∀ d ∈ cs, t.method? ⟨d, subsig⟩ = none := by
  unfold firstDeclaring
  rw [List.findSome?_eq_none_iff]
  simp [Option.eq_none_iff_forall_ne_some]

/-- A test that all declarations pass makes no difference. -/
theorem firstDeclaring_eq {p : Method → Bool} {cs : List String}
    (h : ∀ d ∈ cs, ∀ m, t.method? ⟨d, subsig⟩ = some m → p m = true) :
    t.firstDeclaring p subsig cs = t.firstDeclaring (fun _ => true) subsig cs := by
  cases hfirst : t.firstDeclaring (fun _ => true) subsig cs with
  | some m =>
    obtain ⟨d, hd, hm, -⟩ := method?_of_firstDeclaring hfirst
    exact firstDeclaring_of_forall hfirst (h d hd m hm)
  | none =>
    rw [firstDeclaring_eq_none_iff] at hfirst
    refine List.findSome?_eq_none_iff.mpr fun d hd => ?_
    rw [hfirst d hd, Option.filter_none]

/-- A default method that a virtual call may choose is what a reference chooses. -/
theorem pickMethod_of_pickVirtual (h : pickVirtual type subsig ds = .ok id) :
    pickMethod type subsig ds = .ok id := by
  obtain ⟨m, hm, rfl⟩ := pickVirtual_eq_ok_iff.mp h
  unfold pickMethod
  rw [hm]

theorem pickMethod_eq_error_iff {e : ResolutionError} :
    pickMethod type subsig ds = .error e ↔ e = ⟨type, subsig, .noDeclaration⟩ ∧ ds = [] := by
  unfold pickMethod
  cases ds with
  | nil => simp [eq_comm]
  | cons d ds =>
    generalize ((d :: ds).filter fun m => !m.abstract) = concrete
    rcases concrete with _ | ⟨m, _ | ⟨m', ms⟩⟩ <;> simp

theorem resolveMethod_of_resolveVirtual
    (hchain : ∀ d ∈ t.chain c, ∀ m, t.method? ⟨d, subsig⟩ = some m → m.static = false)
    (h : t.resolveVirtual (.cls c) subsig = .ok (.ok id)) :
    t.resolveMethod (.cls c) subsig = .ok (.ok id) := by
  have hfirst : t.firstDeclaring (fun m => !m.static) subsig (t.chain c) =
      t.firstDeclaring (fun _ => true) subsig (t.chain c) :=
    firstDeclaring_eq fun d hd m hm => by rw [hchain d hd m hm, Bool.not_false]
  rw [resolveVirtual_def] at h
  unfold chooseVirtual at h
  rw [resolveMethod_def]
  cases hrecv : t.receiverClass? (.cls c) with
  | none =>
    rw [hrecv] at h
    cases h
  | some d =>
    obtain ⟨rfl, -⟩ := mem_receiverClass?_cls.mp hrecv
    rw [hrecv] at h
    dsimp only at h ⊢
    unfold searched at h ⊢
    rw [hfirst] at h
    cases hm : t.firstDeclaring (fun _ => true) subsig (t.chain c) with
    | some m =>
      rw [hm] at h
      dsimp only at h ⊢
      by_cases habstract : m.abstract
      · rw [if_pos habstract] at h
        exact nomatch h
      · rwa [if_neg habstract] at h
    | none =>
      rw [hm] at h
      dsimp only at h ⊢
      split_ifs at h ⊢
      exact congrArg Except.ok (pickMethod_of_pickVirtual (Except.ok.inj h))

theorem resolveVirtual_of_resolveMethod (ht : t.Declared) (hclass : (t.info c).interface = false)
    (h : t.resolveMethod (.cls c) subsig = .ok (.ok id)) (hid : id.cls ∈ t.chain c)
    (hm : t.method? id = some m) (hstatic : m.static = false) (hconcrete : m.abstract = false) :
    t.resolveVirtual (.cls c) subsig = .ok (.ok id) := by
  have hrecv : t.receiverClass? (.cls c) = some c := mem_receiverClass?_cls.mpr ⟨rfl, hclass⟩
  rw [resolveMethod_def] at h
  rw [resolveVirtual_def]
  unfold chooseVirtual
  rw [hrecv]
  dsimp only at h ⊢
  rcases of_searched_eq_ok h with ⟨m', hfirst, hm'⟩ | ⟨hfirst, hpick⟩
  · obtain ⟨d, -, hd, -⟩ := method?_of_firstDeclaring hfirst
    have hid' : (⟨d, subsig⟩ : MethodId) = id := (ht.id_eq hd).symm.trans (Except.ok.inj hm')
    obtain rfl : m = m' := Option.some.inj (hm.symm.trans (hid' ▸ hd))
    unfold searched
    rw [firstDeclaring_of_forall hfirst (by rw [hstatic, Bool.not_false])]
    simpa [hconcrete] using hm'
  · -- a method that was found in an interface is not declared on the chain
    obtain ⟨m', hmem, hid'⟩ := of_pickMethod_eq_ok hpick
    obtain ⟨i, -, hi, -⟩ := method?_of_mem_interfaceDeclarations (List.mem_filter.mp hmem).1
    obtain rfl : (⟨i, subsig⟩ : MethodId) = id := (ht.id_eq hi).symm.trans hid'
    rw [firstDeclaring_eq_none_iff.mp hfirst i hid] at hi
    cases hi

/-! ## Without circles -/

theorem Acyclic.finiteChains (h : t.Acyclic) (ht : t.Complete) : t.FiniteChains := by
  have hstrict : IsStrictOrder String fun s c => Relation.TransGen t.IsSupertype c s :=
    { irrefl := h, trans := fun _ _ _ hab hbc => hbc.trans hab }
  have hwf :=
    t.names.finite_toSet.wellFoundedOn (r := fun s c => Relation.TransGen t.IsSupertype c s)
  have hnames : ∀ c ∈ t.names, Acc t.IsSuper c := fun c hc => hwf.induction hc fun c _ ih =>
    Acc.intro c fun s hs => ih s (ht.mem_of_mem_supertypes hs.isSupertype) (.single hs.isSupertype)
  exact ⟨fun c => Acc.intro c fun s hs => hnames s (ht.mem_of_mem_supertypes hs.isSupertype)⟩

/-- The first class is a subtype of the second, and another class. -/
def Below (t : ClassTable) (i j : String) : Prop := i ≠ j ∧ t.SubtypeOf (.cls i) (.cls j)

theorem Below.cases (h : t.Below i j) : j = objectName ∨ Relation.TransGen t.IsSupertype i j := by
  rcases h.2.of_cls with hj | ⟨d, hd, hlinks⟩
  · exact Or.inl (Ty.cls.inj hj)
  · obtain rfl := Ty.cls.inj hd
    exact Or.inr ((Relation.reflTransGen_iff_eq_or_transGen.mp hlinks).resolve_left (Ne.symm h.1))

section Acyclic

variable (hacyclic : t.Acyclic) (hobject : ∀ d, ¬ t.IsSupertype objectName d)

include hacyclic hobject

theorem Below.trans (hij : t.Below i j) (hjk : t.Below j k) : t.Below i k := by
  have hroot : ∀ {d}, ¬ Relation.TransGen t.IsSupertype objectName d := by
    intro d hlinks
    obtain ⟨e, he, -⟩ := Relation.TransGen.head'_iff.mp hlinks
    exact hobject e he
  rcases hij.cases with rfl | hij'
  · -- nothing is above the root class
    rcases hjk.cases with rfl | hlinks
    · exact absurd rfl hjk.1
    · exact absurd hlinks hroot
  rcases hjk.cases with rfl | hjk'
  · refine ⟨?_, .object rfl⟩
    rintro rfl
    exact hroot hij'
  · have hik := hij'.trans hjk'
    refine ⟨?_, .link hik.to_reflTransGen⟩
    rintro rfl
    exact hacyclic i hik

/-- Among declarations there is one that no other overrides. -/
theorem Acyclic.mostSpecific_ne_nil (ht : t.Complete) (hds : ds ≠ []) : t.mostSpecific ds ≠ [] := by
  have hstrict : IsStrictOrder String t.Below :=
    { irrefl := fun _ h => h.1 rfl, trans := fun _ _ _ => Below.trans hacyclic hobject }
  have hwf := (ds.map Method.cls).finite_toSet.wellFoundedOn (r := t.Below)
  obtain ⟨d, hd⟩ := List.exists_mem_of_ne_nil ds hds
  obtain ⟨⟨i, hi⟩, -, hmin⟩ :=
    WellFounded.has_min hwf Set.univ ⟨⟨d.cls, List.mem_map_of_mem hd⟩, trivial⟩
  obtain ⟨m, hm, rfl⟩ := List.mem_map.mp hi
  refine List.ne_nil_of_mem (List.mem_filter.mpr ⟨hm, ?_⟩)
  rw [Bool.not_eq_true', List.any_eq_false]
  intro o ho
  split_ifs with hcls
  · exact not_false
  · rw [isSubtype_iff_subtypeOf ht]
    exact fun hsub => hmin ⟨o.cls, List.mem_map_of_mem ho⟩ trivial ⟨hcls, hsub⟩

end Acyclic

/-- References fail where nothing is declared. -/
theorem resolveMethod_eq_error_iff (ht : t.Declared) (hacyclic : t.Acyclic)
    (hobject : (t.info objectName).interfaces = []) {e : ResolutionError} :
    t.resolveMethod (.cls c) subsig = .ok (.error e) ↔ e = ⟨.cls c, subsig, .noDeclaration⟩ ∧
      (∀ d, Relation.ReflTransGen t.IsSuper d c → t.method? ⟨d, subsig⟩ = none) ∧
        ∀ m, ¬ t.Inherits subsig c m := by
  have hc : Acc t.IsSuper c := (hacyclic.finiteChains ht.complete).apply c
  have hroot := ht.not_isSupertype_objectName hobject
  have hspecific : t.mostSpecific (t.interfaceDeclarations c subsig) = [] ↔
      ∀ m, ¬ t.Inherits subsig c m := by
    simp only [← mem_interfaceDeclarations_iff ht hc, ← List.eq_nil_iff_forall_not_mem]
    constructor
    · exact fun hnil => by_contra fun hne => hacyclic.mostSpecific_ne_nil hroot ht.complete hne hnil
    · intro hnil
      rw [hnil]
      rfl
  have hchain : t.firstDeclaring (fun _ => true) subsig (t.chain c) = none ↔
      ∀ d, Relation.ReflTransGen t.IsSuper d c → t.method? ⟨d, subsig⟩ = none := by
    simp only [firstDeclaring_eq_none_iff, mem_chain_iff hc]
  rw [resolveMethod_def, ← hspecific, ← hchain]
  dsimp only
  rw [searched_of_acc hc]
  cases t.firstDeclaring (fun _ => true) subsig (t.chain c) with
  | some m => simp
  | none => simpa using pickMethod_eq_error_iff

end ClassTable

/-! ## Hierarchies -/

namespace Memo

variable {t t' : ClassTable} {m m' : Memo}

/-- The memory gives the answers of the table about references to classes with finite superclass
chains. -/
def KnowsMethods (t : ClassTable) (m : Memo) : Prop :=
  ∀ c subsig, Acc t.IsSuper c →
    answer (resolveMethod t (.cls c) subsig) m = t.resolveMethod (.cls c) subsig

theorem knowsMethods_empty (t : ClassTable) : KnowsMethods t {} := by
  intro c subsig _
  obtain ⟨m', hrun, -⟩ := resolveMethod_gives t (.cls c) subsig {} (faithful_empty t)
  unfold answer
  rw [hrun]

theorem KnowsMethods.asked (h : m.KnowsMethods t) (hm : Asked t m m') : m'.KnowsMethods t :=
  fun c subsig hc => (hm.same.methods (.cls c) subsig).trans (h c subsig hc)

/-- A memory that knows the subtypes selects as the table does. -/
theorem KnowsSubtypes.answer_selectMethod (h : m.KnowsSubtypes t) (type : Ty) (subsig : String) :
    answer (t.selectMethod (isSubtype t) type subsig) m = t.resolveMethod type subsig := by
  have hsame : SameSubtypes t {} m := fun a b => (h a b).trans (knowsSubtypes_empty t a b).symm
  obtain ⟨heq, -⟩ :=
    selectMethod_settled (fun _ _ _ => rfl) (isSubtype_sameSubtypes t) type subsig {} m hsame
  obtain ⟨m', hrun, -⟩ := selectMethod_gives t type subsig {} (faithful_empty t)
  rw [heq]
  unfold answer
  rw [hrun]

/-- What is known of one table is known of every table with the same declarations. -/
theorem KnowsMethods.congr (h : m.KnowsMethods t) (hsub : m.KnowsSubtypes t')
    (hsame : t.SameDeclarations t')
    (ht : t.Complete) (ht' : t'.Complete) : m.KnowsMethods t' := by
  intro c subsig hc
  rw [hsame.isSuper_eq] at hc
  have hknown := h c subsig hc
  rw [answer_resolveMethod] at hknown ⊢
  cases hl : m.methods.lookup (.cls c, subsig) with
  | some r =>
    rw [hl, Option.map_some, Option.getD_some] at hknown
    rw [Option.map_some, Option.getD_some, hknown]
    refine hsame.resolveMethod_eq ht ht' ?_ subsig
    rintro _ ⟨⟩
    exact hc
  | none => exact hsub.answer_selectMethod (.cls c) subsig

end Memo

namespace Hierarchy

variable {h : Hierarchy}

theorem Since.knowsMethods (hh : h.Since ClassTable.Grows) : h.memo.KnowsMethods h.table := by
  induction hh with
  | declared ht => exact Memo.knowsMethods_empty _
  | asked _ hm ih => exact ih.asked hm
  | @changed h t hh ht ih =>
    have hdeclared := hh.extends.declared_table
    exact ih.congr (Since.changed hh ht).extends.knowsSubtypes (ht.sameDeclarations hdeclared)
      hdeclared.complete
      (ht.declared hdeclared).complete

/-- The answer to the question which method a reference denotes. -/
def resolveMethod (h : Hierarchy) (type : Ty) (subsig : String) : Target :=
  (h.ask fun t => Memo.resolveMethod t type subsig).1

theorem table_ask {α : Type} (h : Hierarchy) (q : ClassTable → StateM Memo α) :
    (h.ask q).2.table = h.table := rfl

/-- A question about a reference is no declaration. -/
theorem Since.ask_resolveMethod {change : ClassTable → ClassTable → Prop}
    (hh : h.Since change) (type : Ty)
    (subsig : String) : (h.ask fun t => Memo.resolveMethod t type subsig).2.Since change :=
  .asked hh (.method .refl type subsig)

theorem Since.resolveMethod_eq (hh : h.Since ClassTable.Grows) {c : String}
    (hc : Acc h.table.IsSuper c)
    (subsig : String) : h.resolveMethod (.cls c) subsig = h.table.resolveMethod (.cls c) subsig :=
  hh.knowsMethods c subsig hc

/-- On a class with a finite superclass chain, a reference denotes what a virtual call runs, unless
there is a static method on the chain. A concrete instance method on the chain that a reference
denotes is what a virtual call runs. If supertypes do not go round in circles, references fail
exactly where there is no declaration, static methods of interfaces apart. -/
theorem resolveMethod_agrees_resolveVirtual (hh : h.Since ClassTable.Grows) :
    (∀ c subsig, (h.table.info c).interface = false → Acc h.table.IsSuper c →
      (∀ id, (∀ d m, Relation.ReflTransGen h.table.IsSuper d c →
        h.table.method? ⟨d, subsig⟩ = some m →
          m.static = false) →
        h.resolveVirtual (.cls c) subsig = .ok (.ok id) →
          h.resolveMethod (.cls c) subsig = .ok (.ok id)) ∧
      ∀ id m, h.resolveMethod (.cls c) subsig = .ok (.ok id) →
        Relation.ReflTransGen h.table.IsSuper id.cls c → h.table.method? id = some m →
          m.static = false →
        m.abstract = false → h.resolveVirtual (.cls c) subsig = .ok (.ok id)) ∧
    (h.table.Acyclic → (h.table.info objectName).interfaces = [] →
      ∀ c subsig e, h.resolveMethod (.cls c) subsig = .ok (.error e) ↔
        e = ⟨.cls c, subsig, .noDeclaration⟩ ∧
        (∀ d, Relation.ReflTransGen h.table.IsSuper d c → h.table.method? ⟨d, subsig⟩ = none) ∧
        ∀ i, h.table.Superinterface c i → ∀ m, ¬ h.table.Declares subsig i m) := by
  have ht := hh.extends.declared_table
  refine ⟨fun c subsig hclass hc => ?_, fun hacyclic hobject c subsig e => ?_⟩
  · have hrecv : ∀ d ∈ h.table.receiverClass? (.cls c), Acc h.table.IsSuper d := by
      intro d hd
      rwa [← (ClassTable.mem_receiverClass?_cls.mp hd).1]
    rw [hh.resolveVirtual_eq hrecv, hh.resolveMethod_eq hc]
    constructor
    · intro id hchain
      refine ClassTable.resolveMethod_of_resolveVirtual fun d hd m => hchain d m ?_
      exact (ClassTable.mem_chain_iff hc).mp hd
    · intro id m hid hcls
      rw [← ClassTable.mem_chain_iff hc] at hcls
      exact ClassTable.resolveVirtual_of_resolveMethod ht hclass hid hcls
  · rw [hh.resolveMethod_eq ((hacyclic.finiteChains ht.complete).apply c),
      ClassTable.resolveMethod_eq_error_iff ht hacyclic hobject]
    refine and_congr_right fun _ => and_congr_right fun _ => ⟨?_, ?_⟩
    · exact fun hnone i hi m hm => hnone m ⟨i, hi, hm⟩
    · rintro hnone m ⟨i, hi, hm⟩
      exact hnone i hi m hm

/-- The greeters, a guest who has both default methods, and a class below it that has a method of
its own. -/
def guests : ClassTable :=
  (((greeters ["Greeter", "Polite"]).declare "Guest"
    { interfaces := ["Greeter", "Polite"] }).declare "Chef"
    { super := "Guest" }).withMethod "Chef" { sub := ⟨"greet", [], .prim .void⟩ } |>.declare "Cook"
    { super := "Chef" }

theorem declared_guests : guests.Declared :=
  (((declared_greeters _).declare _ _).declare _ _ |>.withMethod _ _).declare _ _

/-- The guests after a question about a reference. -/
def askedGuests : Hierarchy :=
  (Hierarchy.ask { table := guests } fun t => Memo.resolveMethod t (.cls "Cook") "void greet()").2

/-- The waiter has a static method from the host, which references find and virtual calls do not. -/
theorem resolveMethod_agrees_resolveVirtual_guests :
    askedGuests.resolveMethod (.cls "Guest") "void greet()" = .ok (.ok ⟨"Polite", "void greet()"⟩) ∧
    askedGuests.resolveVirtual (.cls "Cook") "void greet()" = .ok (.ok ⟨"Chef", "void greet()"⟩) ∧
    askedGuests.resolveMethod (.cls "Waiter") "void greet()" = .ok (.ok ⟨"Host", "void greet()"⟩) ∧
    askedGuests.resolveVirtual (.cls "Waiter") "void greet()" = .ok
      (.ok ⟨"Polite", "void greet()"⟩) ∧
    (∀ i, guests.Superinterface "Cook" i → ∀ m, ¬ guests.Declares "void leave()" i m) := by
  have hh : askedGuests.Since ClassTable.Grows :=
    Since.ask_resolveMethod (.declared declared_guests) _ _
  have hcomplete : guests.Complete := declared_guests.complete
  have hlinks : ∀ c ∈ guests.names, ∀ d ∈ (guests.info c).supertypes, c ∉ guests.ancestors d := by
    decide +kernel
  have hacyclic : guests.Acyclic := (ClassTable.acyclic_iff hcomplete).mpr hlinks
  have hfinite := hacyclic.finiteChains hcomplete
  obtain ⟨hclasses, herrors⟩ := resolveMethod_agrees_resolveVirtual hh
  have htable : askedGuests.table = guests := by rw [askedGuests, table_ask]
  rw [htable] at hclasses herrors
  refine ⟨?_, ?_, by decide +kernel, by decide +kernel, ?_⟩
  · have hchain : ∀ d ∈ guests.chain "Guest",
        (guests.method? ⟨d, "void greet()"⟩).isNone = true := by decide +kernel
    refine (hclasses "Guest" "void greet()" (by decide +kernel) (hfinite.apply _)).1 _
      (fun d m hd hm => ?_)
      (by decide +kernel)
    have hnone := hchain d ((ClassTable.mem_chain_iff (hfinite.apply _)).mpr hd)
    exact absurd (hm.symm.trans (Option.isNone_iff_eq_none.mp hnone)) (Option.some_ne_none m)
  · have hflags : (guests.method? ⟨"Chef", "void greet()"⟩).map (fun m => (m.static, m.abstract)) =
        some (false, false) := by decide +kernel
    obtain ⟨m, hm, hflags⟩ := Option.map_eq_some_iff.mp hflags
    obtain ⟨hstatic, hconcrete⟩ := Prod.mk.inj hflags
    exact (hclasses "Cook" "void greet()" (by decide +kernel) (hfinite.apply _)).2 _ m
      (by decide +kernel)
      (.single (by unfold ClassTable.IsSuper; decide +kernel)) hm hstatic hconcrete
  · exact ((herrors hacyclic (by decide +kernel) "Cook" "void leave()"
      ⟨.cls "Cook", "void leave()", .noDeclaration⟩).mp (by decide +kernel)).2.2

end Hierarchy

end PointsTo
