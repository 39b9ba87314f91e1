import PointsTo.Proofs.Declarations
import PointsTo.Proofs.Subtyping

/-!
# Which method a virtual call runs

1. `ClassTable.Selects` are the rules of method selection: the nearest declaration on the superclass
   chain, or else the only default method among the most specific declarations in the
   superinterfaces. The search of a table follows them if the chain is finite
   (`resolveVirtual_eq_ok_iff`).
2. The rules do not depend on the order of interfaces (`Reordered.selects`).
3. A hierarchy follows the rules as long as neither a class nor a method is declared after a
   question (`Hierarchy.resolveVirtual_iff_selects`).
-/

namespace PointsTo

namespace ClassTable

variable {t t' : ClassTable} {c d i subsig : String} {m : Method} {id : MethodId} {type : Ty}

/-! ## The rules -/

/-- A non-static declaration of a subsignature in a class itself. -/
def Declares (t : ClassTable) (subsig c : String) (m : Method) : Prop :=
  t.method? ⟨c, subsig⟩ = some m ∧ m.static = false

/-- The first non-static declaration on the superclass chain of a class. -/
inductive Nearest (t : ClassTable) (subsig : String) : String → Method → Prop
  | here {c : String} {m : Method} (hm : t.Declares subsig c m) : Nearest t subsig c m
  | up {c s : String} {m : Method} (hc : ∀ m, ¬ t.Declares subsig c m) (hs : t.IsSuper s c)
    (hm : Nearest t subsig s m) : Nearest t subsig c m

/-- The interfaces of a class and of its superclasses, with the interfaces that these extend. -/
inductive Superinterface (t : ClassTable) (c : String) : String → Prop
  | listed {d i : String} (hd : Relation.ReflTransGen t.IsSuper d c)
    (hi : i ∈ (t.info d).interfaces) :
    Superinterface t c i
  | extended {i j : String} (hi : Superinterface t c i) (hj : j ∈ (t.info i).interfaces) :
    Superinterface t c j

/-- A non-static declaration in a superinterface. -/
def Inherits (t : ClassTable) (subsig c : String) (m : Method) : Prop :=
  ∃ i, t.Superinterface c i ∧ t.Declares subsig i m

/-- A non-static declaration in a superinterface that no other one overrides in a subtype. -/
def Specific (t : ClassTable) (subsig c : String) (m : Method) : Prop :=
  t.Inherits subsig c m ∧ ∀ o, t.Inherits subsig c o → o ≠ m →
    ¬ t.SubtypeOf (.cls o.cls) (.cls m.cls)

/-- The method that a virtual call runs on a receiver of a class. -/
inductive Selects (t : ClassTable) (subsig c : String) : MethodId → Prop
  | chain {m : Method} (hm : t.Nearest subsig c m) (hconcrete : m.abstract = false) :
    Selects t subsig c m.id
  | default {m : Method} (hchain : ∀ m, ¬ t.Nearest subsig c m) (hm : t.Specific subsig c m)
    (hconcrete : m.abstract = false) (honly : ∀ o, t.Specific subsig c o →
      o.abstract = false → o = m) :
    Selects t subsig c m.id

/-! ## Along the superclass chain -/

theorem filter_method?_eq_some_iff :
    (t.method? ⟨c, subsig⟩).filter (fun m => !m.static) = some m ↔ t.Declares subsig c m := by
  unfold Declares
  rw [Option.filter_eq_some_iff, Bool.not_eq_true']

theorem filter_method?_eq_none_iff :
    (t.method? ⟨c, subsig⟩).filter (fun m => !m.static) = none ↔ ∀ m, ¬ t.Declares subsig c m := by
  simp only [Option.eq_none_iff_forall_ne_some, Ne, filter_method?_eq_some_iff]

theorem nearest_iff_of_declares {m' : Method} (hm : t.Declares subsig c m) :
    t.Nearest subsig c m' ↔ m = m' := by
  constructor
  · rintro (hm' | ⟨hnone, -, -⟩)
    · exact Option.some.inj (hm.1.symm.trans hm'.1)
    · exact absurd hm (hnone m)
  · rintro rfl
    exact .here hm

theorem nearest_iff_of_not_declares (hnone : ∀ m, ¬ t.Declares subsig c m) :
    t.Nearest subsig c m ↔ ∃ s, t.IsSuper s c ∧ t.Nearest subsig s m := by
  constructor
  · rintro (hm | ⟨-, hs, hm⟩)
    · exact absurd hm (hnone m)
    · exact ⟨_, hs, hm⟩
  · rintro ⟨s, hs, hm⟩
    exact .up hnone hs hm

/-- The search along the chain finds the nearest declaration. -/
theorem firstDeclaring_chain_iff (hc : Acc t.IsSuper c) :
    t.firstDeclaring (fun m => !m.static) subsig (t.chain c) = some m ↔ t.Nearest subsig c m := by
  unfold firstDeclaring
  -- upwards along the chain, which ends since `c` is accessible
  induction hc with
  | intro c hacc ih =>
    rw [chain_eq_cons ⟨c, hacc⟩, List.findSome?_cons]
    cases hfilter : (t.method? ⟨c, subsig⟩).filter fun m => !m.static with
    | some m' =>
      rw [nearest_iff_of_declares (filter_method?_eq_some_iff.mp hfilter)]
      exact Option.some_inj
    | none =>
      rw [nearest_iff_of_not_declares (filter_method?_eq_none_iff.mp hfilter)]
      unfold IsSuper
      cases hs : (t.info c).super with
      | none => simp
      | some s => simpa using ih s hs

/-! ## In the superinterfaces -/

theorem mem_superinterfaces_iff (ht : t.Complete) (hc : Acc t.IsSuper c) :
    i ∈ t.superinterfaces c ↔ t.Superinterface c i := by
  constructor
  · refine levels_induction (fun _ hi _ hj => .extended hi hj) (fun i hi => ?_)
      (fun _ h => absurd h List.not_mem_nil) i
    obtain ⟨d, hd, hi⟩ := List.mem_flatMap.mp hi
    exact .listed ((mem_chain_iff hc).mp hd) hi
  · have hnames : ∀ {a b}, b ∈ (t.info a).interfaces → b ∈ t.names := fun hb =>
      ht.mem_of_mem_supertypes (List.mem_append_right _ hb)
    intro h
    induction h with
    | listed hd hi =>
      exact mem_levels_of_mem_frontier (List.mem_flatMap.mpr ⟨_, (mem_chain_iff hc).mpr hd, hi⟩)
    | extended _ hj ih =>
      refine mem_levels_of_mem_next (fun _ _ _ => hnames) (fun b hb => ?_) ?_
        (fun _ h => absurd h List.not_mem_nil)
        _ ih _ hj
      · obtain ⟨a, -, hb⟩ := List.mem_flatMap.mp hb
        exact hnames hb
      · refine Nat.le_trans (List.length_filter_le _ _) ?_
        rw [length_names]
        exact Nat.le_add_right _ _

section Declared

variable (ht : t.Declared)

include ht

theorem Declares.cls_eq (hm : t.Declares subsig i m) :
    m.cls = i := congrArg MethodId.cls (ht.id_eq hm.1)

theorem Inherits.eq_of_cls_eq {o : Method} (hm : t.Inherits subsig c m) (ho : t.Inherits subsig c o)
    (hcls : o.cls = m.cls) : o = m := by
  obtain ⟨i, -, hm⟩ := hm
  obtain ⟨j, -, ho⟩ := ho
  rw [hm.cls_eq ht, ho.cls_eq ht] at hcls
  obtain rfl := hcls
  exact Option.some.inj (ho.1.symm.trans hm.1)

theorem nodup_interfaceDeclarations : (t.interfaceDeclarations c subsig).Nodup := by
  refine List.Nodup.filterMap (fun i j m hi hj => ?_) (nodup_levels List.nodup_nil)
  rw [← (filter_method?_eq_some_iff.mp hi).cls_eq ht, (filter_method?_eq_some_iff.mp hj).cls_eq ht]

variable (hc : Acc t.IsSuper c)

include hc

theorem mem_interfaceDeclarations_iff :
    m ∈ t.interfaceDeclarations c subsig ↔ t.Inherits subsig c m := by
  unfold interfaceDeclarations Inherits
  simp only [List.mem_filterMap, mem_superinterfaces_iff ht.complete hc, filter_method?_eq_some_iff]

theorem mem_mostSpecific_iff :
    m ∈ t.mostSpecific (t.interfaceDeclarations c subsig) ↔ t.Specific subsig c m := by
  unfold mostSpecific Specific
  rw [List.mem_filter, mem_interfaceDeclarations_iff ht hc]
  refine and_congr_right fun hm => ?_
  simp only [Bool.not_eq_true', List.any_eq_false, mem_interfaceDeclarations_iff ht hc]
  refine forall₂_congr fun o ho => ?_
  -- an interface has one declaration, so declarations of one class are the same
  by_cases hcls : o.cls = m.cls
  · simp [hm.eq_of_cls_eq ht ho hcls]
  · have hne : o ≠ m := mt (congrArg Method.cls) hcls
    rw [if_neg hcls, isSubtype_iff_subtypeOf ht.complete, imp_iff_right hne]

end Declared

/-! ## The choice -/

theorem pickVirtual_eq_ok_iff {ds : List Method} :
    pickVirtual type subsig ds = .ok id ↔ ∃ m, (ds.filter fun m => !m.abstract) = [m] ∧
      m.id = id := by
  unfold pickVirtual
  generalize (ds.filter fun m => !m.abstract) = concrete
  rcases concrete with _ | ⟨m, _ | ⟨m', ms⟩⟩
  · cases ds <;> simp
  · simp
  · simp

/-- The declarations with bodies are a single one. -/
theorem filter_eq_singleton_iff {ds : List Method} (hds : ds.Nodup) :
    (ds.filter fun m => !m.abstract) = [m] ↔
      (m ∈ ds ∧ m.abstract = false) ∧ ∀ o ∈ ds, o.abstract = false → o = m := by
  rw [← List.perm_singleton, List.perm_ext_iff_of_nodup (hds.filter _) (List.nodup_singleton m)]
  simp only [List.mem_filter, Bool.not_eq_true', List.mem_singleton]
  constructor
  · exact fun h => ⟨(h m).mpr rfl, fun o ho hconcrete => (h o).mp ⟨ho, hconcrete⟩⟩
  · rintro ⟨hm, honly⟩ o
    refine ⟨fun ho => honly o ho.1 ho.2, ?_⟩
    rintro rfl
    exact hm

theorem selects_iff_of_nearest (hc : Acc t.IsSuper c) (hm : t.Nearest subsig c m) :
    t.Selects subsig c id ↔ m.abstract = false ∧ m.id = id := by
  constructor
  · rintro (⟨hm', hconcrete⟩ | ⟨hnone, -, -, -⟩)
    · rw [← firstDeclaring_chain_iff hc] at hm hm'
      obtain rfl := Option.some.inj (hm.symm.trans hm')
      exact ⟨hconcrete, rfl⟩
    · exact absurd hm (hnone m)
  · rintro ⟨hconcrete, rfl⟩
    exact .chain hm hconcrete

theorem selects_iff_of_not_nearest (hnone : ∀ m, ¬ t.Nearest subsig c m) :
    t.Selects subsig c id ↔ ∃ m, ((t.Specific subsig c m ∧ m.abstract = false) ∧
      ∀ o, t.Specific subsig c o → o.abstract = false → o = m) ∧ m.id = id := by
  constructor
  · rintro (⟨hm, -⟩ | ⟨-, hm, hconcrete, honly⟩)
    · exact absurd hm (hnone _)
    · exact ⟨_, ⟨⟨hm, hconcrete⟩, honly⟩, rfl⟩
  · rintro ⟨m, ⟨⟨hm, hconcrete⟩, honly⟩, rfl⟩
    exact .default hnone hm hconcrete honly

theorem mem_receiverClass?_cls : d ∈ t.receiverClass? (.cls c) ↔ c = d ∧
    (t.info c).interface = false := by
  unfold receiverClass?
  rw [Option.mem_def, Option.filter_eq_some_iff, Option.some_inj, Bool.not_eq_true']
  exact and_congr_right fun h => by rw [h]

theorem receiverClass?_eq_none (h : t.kind type ∈ [.interface, .primitive, .null]) :
    t.receiverClass? type = none := by
  cases type with
  | cls c =>
    refine Option.eq_none_iff_forall_not_mem.mpr fun d hd => ?_
    rw [kind, (mem_receiverClass?_cls.mp hd).2] at h
    exact absurd h (by decide)
  | array e => exact absurd h (by simp [kind])
  | _ => rfl

/-- Virtual calls follow the rules, starting in the class of the receiver. -/
theorem resolveVirtual_eq_ok_iff (ht : t.Declared)
    (hfinite : ∀ c ∈ t.receiverClass? type, Acc t.IsSuper c) :
    t.resolveVirtual type subsig = .ok (.ok id) ↔
      ∃ c ∈ t.receiverClass? type, t.Selects subsig c id := by
  rw [resolveVirtual_def]
  unfold chooseVirtual
  cases hrecv : t.receiverClass? type with
  | none => simp
  | some c =>
    have hc := hfinite c hrecv
    simp only [Option.mem_some_iff, exists_eq_left']
    rw [searched_of_acc hc, Except.ok.injEq]
    cases hfirst : t.firstDeclaring (fun m => !m.static) subsig (t.chain c) with
    | some m =>
      rw [selects_iff_of_nearest hc ((firstDeclaring_chain_iff hc).mp hfirst)]
      cases hm : m.abstract <;> simp [hm]
    | none =>
      have hnone : ∀ m, ¬ t.Nearest subsig c m := fun m hm =>
        nomatch hfirst.symm.trans ((firstDeclaring_chain_iff hc).mpr hm)
      have hnodup : (t.mostSpecific (t.interfaceDeclarations c subsig)).Nodup :=
        (nodup_interfaceDeclarations ht).filter _
      rw [Option.map_none, Option.getD_none, pickVirtual_eq_ok_iff,
        selects_iff_of_not_nearest hnone]
      simp only [filter_eq_singleton_iff hnodup, mem_mostSpecific_iff ht hc]

/-- A failure names the type and the subsignature that were asked for. -/
theorem resolveVirtual_cases (hfinite : ∀ c ∈ t.receiverClass? type, Acc t.IsSuper c)
    (subsig : String) :
    (∃ id, t.resolveVirtual type subsig = .ok (.ok id)) ∨
      ∃ reason, t.resolveVirtual type subsig = .ok (.error ⟨type, subsig, reason⟩) := by
  rw [resolveVirtual_def]
  unfold chooseVirtual
  cases hrecv : t.receiverClass? type with
  | none => exact Or.inr ⟨_, rfl⟩
  | some c =>
    dsimp only
    rw [searched_of_acc (hfinite c hrecv)]
    unfold pickVirtual
    cases t.firstDeclaring (fun m => !m.static) subsig (t.chain c) with
    | some m =>
      rw [Option.map_some, Option.getD_some]
      split_ifs
      · exact Or.inr ⟨_, rfl⟩
      · exact Or.inl ⟨_, rfl⟩
    | none =>
      rw [Option.map_none, Option.getD_none]
      split
      · exact Or.inl ⟨_, rfl⟩
      · exact Or.inr ⟨_, rfl⟩
      · split <;> exact Or.inr ⟨_, rfl⟩

/-! ## The order of interfaces -/

/-- The tables list the same interfaces, maybe in other orders or more than once, and declare the
same otherwise. -/
structure Reordered (t t' : ClassTable) : Prop where
  interface : ∀ c, (t'.info c).interface = (t.info c).interface
  super : ∀ c, (t'.info c).super = (t.info c).super
  interfaces : ∀ c i, i ∈ (t'.info c).interfaces ↔ i ∈ (t.info c).interfaces
  methods : ∀ id, t'.method? id = t.method? id

/-- The interfaces of a declaration may be listed in another order. -/
theorem Reordered.declare (t : ClassTable) (name : String) (d : ClassDecl)
    {interfaces : List String}
    (hmem : ∀ i, i ∈ interfaces ↔ i ∈ d.interfaces) :
    (t.declare name d).Reordered (t.declare name { d with interfaces }) := by
  have hinfo : ∀ c, (t.declare name { d with interfaces }).info c =
      if c = name then { (t.declare name d).info name with interfaces }
        else (t.declare name d).info c := by
    intro c
    unfold ClassTable.declare
    dsimp only
    simp only [info_mentionAll, info_set, if_true]
    by_cases hc : c = name
    · simp only [if_pos hc]
    · simp only [if_neg hc]
  have hname : ((t.declare name d).info name).interfaces = d.interfaces := by
    unfold ClassTable.declare
    dsimp only
    rw [info_mentionAll, info_set, if_pos rfl]
  refine ⟨fun c => ?_, fun c => ?_, fun c i => ?_, fun id => by rw [method?_declare,
    method?_declare]⟩ <;>
    rw [hinfo] <;> split_ifs with hc
  · rw [hc]
  · rfl
  · rw [hc]
  · rfl
  · rw [hc, hname]
    exact hmem i
  · rfl

namespace Reordered

variable (h : t.Reordered t')

include h

theorem symm : t'.Reordered t :=
  ⟨fun c => (h.interface c).symm, fun c => (h.super c).symm, fun c i => (h.interfaces c i).symm,
    fun id => (h.methods id).symm⟩

theorem isSuper_eq : t'.IsSuper = t.IsSuper := isSuper_congr h.super

theorem isSupertype (hd : t.IsSupertype c d) : t'.IsSupertype c d := by
  unfold IsSupertype ClassInfo.supertypes at hd ⊢
  rw [List.mem_append, h.super, h.interfaces]
  exact List.mem_append.mp hd

theorem declares (hm : t.Declares subsig c m) : t'.Declares subsig c m :=
  ⟨(h.methods _).trans hm.1, hm.2⟩

theorem receiverClass?_eq (type : Ty) : t'.receiverClass? type = t.receiverClass? type :=
  receiverClass?_congr h.interface type

theorem nearest (hm : t.Nearest subsig c m) : t'.Nearest subsig c m := by
  induction hm with
  | here hm => exact .here (h.declares hm)
  | up hc hs _ ih => exact .up (fun m hm => hc m (h.symm.declares hm)) (h.isSuper_eq ▸ hs) ih

theorem superinterface (hi : t.Superinterface c i) : t'.Superinterface c i := by
  induction hi with
  | listed hd hi => exact .listed (h.isSuper_eq ▸ hd) ((h.interfaces _ _).mpr hi)
  | extended _ hj ih => exact .extended ih ((h.interfaces _ _).mpr hj)

theorem inherits (hm : t.Inherits subsig c m) : t'.Inherits subsig c m := by
  obtain ⟨i, hi, hm⟩ := hm
  exact ⟨i, h.superinterface hi, h.declares hm⟩

theorem specific (hm : t.Specific subsig c m) : t'.Specific subsig c m :=
  ⟨h.inherits hm.1, fun o ho hne hsub => hm.2 o (h.symm.inherits ho) hne
    (hsub.mono fun _ _ => h.symm.isSupertype)⟩

theorem selects (hid : t.Selects subsig c id) : t'.Selects subsig c id := by
  cases hid with
  | chain hm hconcrete => exact .chain (h.nearest hm) hconcrete
  | default hchain hm hconcrete honly =>
    exact .default (fun m hm => hchain m (h.symm.nearest hm)) (h.specific hm) hconcrete
      fun o ho => honly o (h.symm.specific ho)

end Reordered

end ClassTable

/-! ## Hierarchies whose declarations do not change between questions -/

namespace Memo

variable {t t' : ClassTable} {m m' : Memo}

/-- The memory gives the answers of the table about virtual calls, for receivers with finite
superclass chains. -/
def KnowsVirtuals (t : ClassTable) (m : Memo) : Prop :=
  ∀ type subsig, (∀ c ∈ t.receiverClass? type, Acc t.IsSuper c) →
    answer (resolveVirtual t type subsig) m = t.resolveVirtual type subsig

theorem knowsVirtuals_empty (t : ClassTable) : KnowsVirtuals t {} := by
  intro type subsig _
  obtain ⟨m', hrun, -⟩ := resolveVirtual_gives t type subsig {} (faithful_empty t)
  unfold answer
  rw [hrun]

theorem KnowsVirtuals.asked (h : m.KnowsVirtuals t) (hm : Asked t m m') : m'.KnowsVirtuals t :=
  fun type subsig hfinite => (hm.same.virtuals type subsig).trans (h type subsig hfinite)

/-- A memory that knows the subtypes selects as the table does. -/
theorem KnowsSubtypes.answer_selectVirtual (h : m.KnowsSubtypes t) (type : Ty) (subsig : String) :
    answer (t.selectVirtual (isSubtype t) type subsig) m = t.resolveVirtual type subsig := by
  have hsame : SameSubtypes t {} m := fun a b => (h a b).trans (knowsSubtypes_empty t a b).symm
  obtain ⟨heq, -⟩ :=
    selectVirtual_settled (fun _ _ _ => rfl) (isSubtype_sameSubtypes t) type subsig {} m hsame
  obtain ⟨m', hrun, -⟩ := selectVirtual_gives t type subsig {} (faithful_empty t)
  rw [heq]
  unfold answer
  rw [hrun]

/-- What is known of one table is known of every table with the same declarations. -/
theorem KnowsVirtuals.congr (h : m.KnowsVirtuals t) (hsub : m.KnowsSubtypes t')
    (hsame : t.SameDeclarations t')
    (ht : t.Complete) (ht' : t'.Complete) : m.KnowsVirtuals t' := by
  intro type subsig hfinite
  rw [← hsame.receiverClass?_eq, hsame.isSuper_eq] at hfinite
  have hknown := h type subsig hfinite
  rw [answer_resolveVirtual] at hknown ⊢
  cases hl : m.virtuals.lookup (type, subsig) with
  | some r =>
    rw [hl, Option.map_some, Option.getD_some] at hknown
    rw [Option.map_some, Option.getD_some, hknown, hsame.resolveVirtual_eq ht ht' hfinite]
  | none => exact hsub.answer_selectVirtual type subsig

end Memo

/-- Neither mentions nor fields nor bodies are declarations of methods. -/
theorem ClassTable.Grows.sameDeclarations {t t' : ClassTable} (ht : t.Declared) (h : t.Grows t') :
    t.SameDeclarations t' := by
  cases h with
  | mention name => exact .of_info (info_mention t name)
  | addField hok =>
    have hmethods := method?_addField hok
    rcases addField_eq hok with rfl | ⟨cls, -, rfl⟩
    · exact .of_info fun _ => rfl
    · exact .set rfl rfl rfl fun id => by rw [hmethods]
  | body hm hheader => exact .setMethod ht hm hheader

/-- The table with one more method, if it can be declared. -/
def ClassTable.withMethod (t : ClassTable) (cls : String) (d : MethodDecl) : ClassTable :=
  ((t.addMethod (.cls cls) d).map Prod.snd).toOption.getD t

theorem ClassTable.Declared.withMethod {t : ClassTable} (ht : t.Declared) (cls : String)
    (d : MethodDecl) :
    (t.withMethod cls d).Declared := by
  unfold ClassTable.withMethod
  cases hok : t.addMethod (.cls cls) d with
  | error e => exact ht
  | ok r => exact ht.addMethod hok

namespace Hierarchy

variable {h : Hierarchy} {change change' : ClassTable → ClassTable → Prop}

theorem Since.mono (himp : ∀ t t', change t t' → change' t t') (hh : h.Since change) :
    h.Since change' := by
  induction hh with
  | declared ht => exact .declared ht
  | asked _ hm ih => exact .asked ih hm
  | changed _ ht ih => exact .changed ih (himp _ _ ht)

theorem Since.extends (hh : h.Since ClassTable.Grows) : h.Since ClassTable.Extends :=
  hh.mono fun _ _ => .grows

theorem Since.knowsVirtuals (hh : h.Since ClassTable.Grows) : h.memo.KnowsVirtuals h.table := by
  induction hh with
  | declared ht => exact Memo.knowsVirtuals_empty _
  | asked _ hm ih => exact ih.asked hm
  | @changed h t hh ht ih =>
    have hdeclared := hh.extends.declared_table
    exact ih.congr (Since.changed hh ht).extends.knowsSubtypes (ht.sameDeclarations hdeclared)
      hdeclared.complete
      (ht.declared hdeclared).complete

/-- The answer to the question which method a virtual call runs. -/
def resolveVirtual (h : Hierarchy) (type : Ty) (subsig : String) : Target :=
  (h.ask fun t => Memo.resolveVirtual t type subsig).1

variable {type : Ty} {subsig : String}

theorem Since.resolveVirtual_eq (hh : h.Since ClassTable.Grows)
    (hfinite : ∀ c ∈ h.table.receiverClass? type, Acc h.table.IsSuper c) (subsig : String) :
    h.resolveVirtual type subsig = h.table.resolveVirtual type subsig :=
      hh.knowsVirtuals type subsig hfinite

theorem Since.resolveVirtual_eq_ok_iff (hh : h.Since ClassTable.Grows)
    (hfinite : ∀ c ∈ h.table.receiverClass? type, Acc h.table.IsSuper c) {id : MethodId} :
    h.resolveVirtual type subsig = .ok (.ok id) ↔
      ∃ c ∈ h.table.receiverClass? type, h.table.Selects subsig c id := by
  rw [hh.resolveVirtual_eq hfinite,
    ClassTable.resolveVirtual_eq_ok_iff hh.extends.declared_table hfinite]

theorem Since.resolveVirtual_eq_error (hh : h.Since ClassTable.Grows)
    (hfinite : ∀ c ∈ h.table.receiverClass? type, Acc h.table.IsSuper c)
    (hnone : ∀ c ∈ h.table.receiverClass? type, ∀ id, ¬ h.table.Selects subsig c id) :
    ∃ reason, h.resolveVirtual type subsig = .ok (.error ⟨type, subsig, reason⟩) := by
  rw [hh.resolveVirtual_eq hfinite]
  refine (ClassTable.resolveVirtual_cases hfinite _).resolve_left ?_
  rintro ⟨id, hid⟩
  obtain ⟨c, hc, hid⟩ :=
    (ClassTable.resolveVirtual_eq_ok_iff hh.extends.declared_table hfinite).mp hid
  exact hnone c hc id hid

/-- There is an answer. -/
theorem Since.exists_resolveVirtual_eq (hh : h.Since ClassTable.Grows)
    (hfinite : ∀ c ∈ h.table.receiverClass? type, Acc h.table.IsSuper c) (subsig : String) :
    ∃ r, h.resolveVirtual type subsig = .ok r := by
  rw [hh.resolveVirtual_eq hfinite]
  rcases ClassTable.resolveVirtual_cases hfinite subsig with ⟨id, hid⟩ | ⟨reason, hreason⟩
  · exact ⟨_, hid⟩
  · exact ⟨_, hreason⟩

/-- The same methods are found. -/
theorem toOption_eq_of_ok_iff {x x' : Target} (hx : ∃ r, x = .ok r) (hx' : ∃ r, x' = .ok r)
    (h : ∀ id, x = .ok (.ok id) ↔ x' = .ok (.ok id)) :
    x.map Except.toOption = x'.map Except.toOption := by
  have hsome : ∀ (r : Resolution) id, r.toOption = some id ↔ (.ok r : Target) = .ok (.ok id) := by
    intro r id
    cases r <;> simp [Except.toOption]
  obtain ⟨r, rfl⟩ := hx
  obtain ⟨r', rfl⟩ := hx'
  refine congrArg Except.ok (Option.ext fun id => ?_)
  rw [hsome, hsome, h]

/-- Virtual calls on classes with finite superclass chains run what the rules select, and fail if
the rules select nothing. Arrays have the methods of the root class, and other types have none. The
order of interfaces does not matter, except for the reason of a failure. -/
theorem resolveVirtual_iff_selects (hh : h.Since ClassTable.Grows) :
    (∀ c subsig, (h.table.info c).interface = false → Acc h.table.IsSuper c →
      (∀ id, h.resolveVirtual (.cls c) subsig = .ok (.ok id) ↔ h.table.Selects subsig c id) ∧
      ((∀ id, ¬ h.table.Selects subsig c id) →
        ∃ reason, h.resolveVirtual (.cls c) subsig = .ok (.error ⟨.cls c, subsig, reason⟩))) ∧
    (∀ e subsig, (h.resolveVirtual (.array e) subsig).map Except.toOption =
      (h.resolveVirtual (.cls objectName) subsig).map Except.toOption) ∧
    (∀ type subsig, h.table.kind type ∈ [.interface, .primitive, .null] →
      ∃ reason, h.resolveVirtual type subsig = .ok (.error ⟨type, subsig, reason⟩)) ∧
    ∀ h' : Hierarchy, h'.Since ClassTable.Grows → h.table.Reordered h'.table →
      ∀ c subsig, Acc h.table.IsSuper c →
        (h'.resolveVirtual (.cls c) subsig).map Except.toOption =
          (h.resolveVirtual (.cls c) subsig).map Except.toOption := by
  have hcls : ∀ {c}, Acc h.table.IsSuper c → ∀ d ∈ h.table.receiverClass? (.cls c),
      Acc h.table.IsSuper d := by
    intro c hc d hd
    rwa [← (ClassTable.mem_receiverClass?_cls.mp hd).1]
  have hobject : Acc h.table.IsSuper objectName :=
    ⟨_, fun s hs => nomatch hh.extends.declared_table.super_objectName.symm.trans hs⟩
  refine ⟨fun c subsig hclass hc => ?_, fun e subsig => ?_, fun type subsig hkind => ?_,
    fun h' hh' hsame c subsig hc => ?_⟩
  · have hrecv : h.table.receiverClass? (.cls c) = some c :=
      ClassTable.mem_receiverClass?_cls.mpr ⟨rfl, hclass⟩
    refine ⟨fun id => ?_, fun hnone => hh.resolveVirtual_eq_error (hcls hc) ?_⟩
    · rw [hh.resolveVirtual_eq_ok_iff (hcls hc), hrecv]
      simp
    · rw [hrecv]
      rintro _ ⟨⟩
      exact hnone
  · have harray : ∀ d ∈ h.table.receiverClass? (.array e), Acc h.table.IsSuper d := hcls hobject
    refine toOption_eq_of_ok_iff (hh.exists_resolveVirtual_eq harray _)
      (hh.exists_resolveVirtual_eq (hcls hobject) _) fun id => ?_
    rw [hh.resolveVirtual_eq_ok_iff harray, hh.resolveVirtual_eq_ok_iff (hcls hobject)]
    rfl
  · have hrecv := ClassTable.receiverClass?_eq_none hkind
    exact hh.resolveVirtual_eq_error (by simp [hrecv]) (by simp [hrecv])
  · have hfinite' : ∀ d ∈ h'.table.receiverClass? (.cls c), Acc h'.table.IsSuper d := by
      rw [hsame.receiverClass?_eq, hsame.isSuper_eq]
      exact hcls hc
    refine toOption_eq_of_ok_iff (hh'.exists_resolveVirtual_eq hfinite' _)
      (hh.exists_resolveVirtual_eq (hcls hc) _) fun id => ?_
    rw [hh.resolveVirtual_eq_ok_iff (hcls hc), hh'.resolveVirtual_eq_ok_iff hfinite',
      hsame.receiverClass?_eq]
    exact exists_congr fun d => and_congr_right fun _ => ⟨hsame.symm.selects, hsame.selects⟩

/-- A default method of an interface is overridden in an interface that extends it. A class has both
of them, its subclass the first one once more, and a static method on the way is not inherited. -/
def greeters (interfaces : List String) : ClassTable :=
  let sub : Subsig := ⟨"greet", [], .prim .void⟩
  let t := (ClassTable.initial.declare "Polite"
    { interface := true, interfaces := ["Greeter"] }).declare "Greeter"
    { interface := true }
  let t := ((t.withMethod "Greeter" { sub }).withMethod "Polite" { sub }).withMethod "Host"
    { sub, static := true }
  (t.declare "Waiter" { super := "Host", interfaces := ["Greeter"] }).declare "Host" { interfaces }

theorem declared_greeters (interfaces : List String) : (greeters interfaces).Declared := by
  have ht := (ClassTable.Declared.initial.declare "Polite"
    { interface := true, interfaces := ["Greeter"] }).declare
    "Greeter" { interface := true }
  exact (((ht.withMethod _ _).withMethod _ _).withMethod _ _ |>.declare _ _).declare _ _

/-- The greeters after a question about the subclass. -/
def askedGreeters (interfaces : List String) : Hierarchy :=
  (Hierarchy.ask { table := greeters interfaces }
    fun t => Memo.resolveVirtual t (.cls "Waiter") "void greet()").2

theorem since_askedGreeters (interfaces : List String) :
    (askedGreeters interfaces).Since ClassTable.Grows :=
  .asked (.declared (declared_greeters interfaces)) (.virtual .refl _ _)

theorem resolveVirtual_iff_selects_greeters :
    (greeters ["Greeter", "Polite"]).Selects "void greet()" "Waiter" ⟨"Polite", "void greet()"⟩ ∧
    ((askedGreeters ["Polite", "Greeter"]).resolveVirtual (.cls "Host") "void greet()").map
      Except.toOption =
      ((askedGreeters ["Greeter", "Polite"]).resolveVirtual (.cls "Host") "void greet()").map
        Except.toOption ∧
    ∃ reason, (askedGreeters ["Greeter", "Polite"]).resolveVirtual (.cls "Polite") "void greet()" =
      .ok (.error ⟨.cls "Polite", "void greet()", reason⟩) := by
  obtain ⟨hclasses, -, hkinds, horder⟩ :=
    resolveVirtual_iff_selects (since_askedGreeters ["Greeter", "Polite"])
  have hwaiter : Acc (greeters ["Greeter", "Polite"]).IsSuper "Waiter" :=
    ClassTable.acc_of_length_lt (n := 5) (by decide +kernel)
  have hhost : Acc (greeters ["Greeter", "Polite"]).IsSuper "Host" :=
    ClassTable.acc_of_length_lt (n := 5) (by decide +kernel)
  refine ⟨?_, ?_, hkinds _ _ (by decide +kernel)⟩
  · exact ((hclasses "Waiter" "void greet()" (by decide +kernel) hwaiter).1 _).mp
      (by decide +kernel)
  · exact horder _ (since_askedGreeters _) (.declare _ _ _ (by simp [or_comm])) _ _ hhost

end Hierarchy

end PointsTo
