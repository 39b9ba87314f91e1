import PointsTo.Proofs.Answers

/-!
# Subtyping

1. `ClassTable.SubtypeOf` are the rules of subtyping. The subtype test of a table decides them
   (`isSubtype_iff_subtypeOf`), also if its supertypes go round in circles.
2. A memory that knows the subtypes of a table still knows them when the table is extended by
   members and by classes that are merely mentioned. So a hierarchy answers by the rules as long as
   no class is declared after a question (`Hierarchy.isSubtype_iff_rules`).
3. The rules are reflexive. They are transitive if the root class and the two interfaces of arrays
   have no supertypes of their own, and antisymmetric if no class is its own supertype
   (`Hierarchy.isSubtype_order`).
-/

namespace PointsTo

namespace ClassTable

variable {t t' : ClassTable} {a b c : Ty} {n : String}

/-! ## The rules -/

/-- Values of the first type may be stored in places of the second. -/
inductive SubtypeOf (t : ClassTable) : Ty → Ty → Prop
  | refl (a : Ty) : SubtypeOf t a a
  | null {b : Ty} (hb : b.isReference = true) : SubtypeOf t .null b
  | object {a : Ty} (ha : a.isReference = true) : SubtypeOf t a (.cls objectName)
  | array {a b : Ty} (ha : a.isReference = true) (hb : b.isReference = true) (h : SubtypeOf t a b) :
    SubtypeOf t (.array a) (.array b)
  | cloneable (a : Ty) : SubtypeOf t (.array a) (.cls cloneableName)
  | serializable (a : Ty) : SubtypeOf t (.array a) (.cls serializableName)
  | link {c d : String} (h : Relation.ReflTransGen t.IsSupertype c d) : SubtypeOf t
    (.cls c) (.cls d)

theorem subtypeOf_of_isSubtype (ht : t.Complete) (h : t.isSubtype a b = true) :
    t.SubtypeOf a b := by
  induction a generalizing b with
  | null => exact .null h
  | prim p =>
    obtain rfl : b = .prim p := by simpa [isSubtype] using h
    exact .refl _
  | cls c =>
    cases b with
    | cls d =>
      have hcases : d = objectName ∨ d ∈ t.ancestors c := by simpa [isSubtype, isSubclass] using h
      rcases hcases with rfl | hd
      · exact .object rfl
      · exact .link ((mem_ancestors_iff ht).mp hd)
    | _ => exact absurd h Bool.false_ne_true
  | array e ih =>
    cases b with
    | array e' =>
      have hcases : e = e' ∨ (e.isReference = true ∧ e'.isReference = true) ∧
          t.isSubtype e e' = true := by
        simpa [isSubtype] using h
      rcases hcases with rfl | ⟨⟨he, he'⟩, hsub⟩
      · exact .refl _
      · exact .array he he' (ih hsub)
    | cls d =>
      have hcases : (d = objectName ∨ d = cloneableName) ∨ d = serializableName := by
        simpa [isSubtype] using h
      rcases hcases with (rfl | rfl) | rfl
      · exact .object rfl
      · exact .cloneable e
      · exact .serializable e
    | _ => exact absurd h Bool.false_ne_true

theorem isSubtype_of_subtypeOf (ht : t.Complete) (h : t.SubtypeOf a b) :
    t.isSubtype a b = true := by
  induction h with
  | refl a => exact t.isSubtype_refl a
  | null hb => exact hb
  | @object a ha =>
    cases a with
    | prim p => exact nomatch ha
    | cls c => simp [isSubtype]
    | _ => rfl
  | array ha hb _ ih => simp [isSubtype, ha, hb, ih]
  | cloneable e => simp [isSubtype]
  | serializable e => simp [isSubtype]
  | link h => simp [isSubtype, isSubclass, (mem_ancestors_iff ht).mpr h]

/-- The subtype test decides the rules. -/
theorem isSubtype_iff_subtypeOf (ht : t.Complete) : t.isSubtype a b = true ↔ t.SubtypeOf a b :=
  ⟨subtypeOf_of_isSubtype ht, isSubtype_of_subtypeOf ht⟩

/-- More links make more subtypes. -/
theorem SubtypeOf.mono (hlinks : ∀ c d, t.IsSupertype c d → t'.IsSupertype c d)
    (h : t.SubtypeOf a b) :
    t'.SubtypeOf a b := by
  induction h with
  | refl a => exact .refl a
  | null hb => exact .null hb
  | object ha => exact .object ha
  | array ha hb _ ih => exact .array ha hb ih
  | cloneable e => exact .cloneable e
  | serializable e => exact .serializable e
  | link h => exact .link (Relation.ReflTransGen.mono hlinks _ _ h)

/-- The same links make the same subtypes. -/
theorem isSubtype_congr (ht : t.Complete) (ht' : t'.Complete)
    (hlinks : ∀ c d, t'.IsSupertype c d ↔ t.IsSupertype c d) (a b : Ty) :
      t'.isSubtype a b = t.isSubtype a b := by
  rw [Bool.eq_iff_iff, isSubtype_iff_subtypeOf ht', isSubtype_iff_subtypeOf ht]
  exact ⟨.mono fun c d => (hlinks c d).mp, .mono fun c d => (hlinks c d).mpr⟩

/-! ## Order -/

/-- The root class has no interfaces. The two interfaces of arrays have none either, and no
superclass but the root class. -/
structure PlainRoots (t : ClassTable) : Prop where
  object : (t.info objectName).interfaces = []
  arrays : ∀ n ∈ [cloneableName, serializableName],
    (t.info n).interfaces = [] ∧ ∀ s ∈ (t.info n).super, s = objectName

/-- No class is its own supertype, however many links away. -/
def Acyclic (t : ClassTable) : Prop := ∀ c, ¬ Relation.TransGen t.IsSupertype c c

/-- Whether there are circles can be found out from the supertypes of the classes of the table. -/
theorem acyclic_iff (ht : t.Complete) :
    t.Acyclic ↔ ∀ c ∈ t.names, ∀ d ∈ (t.info c).supertypes, c ∉ t.ancestors d := by
  constructor
  · intro h c _ d hd hc
    exact h c (.head' hd ((mem_ancestors_iff ht).mp hc))
  · intro h c hloop
    obtain ⟨d, hd, hback⟩ := Relation.TransGen.head'_iff.mp hloop
    obtain ⟨e, -, he⟩ := Relation.TransGen.tail'_iff.mp hloop
    exact h c (ht.mem_of_mem_supertypes he) d hd ((mem_ancestors_iff ht).mpr hback)

/-- What a class is a subtype of. -/
theorem SubtypeOf.of_cls (h : t.SubtypeOf (.cls n) b) :
    b = .cls objectName ∨ ∃ d, b = .cls d ∧ Relation.ReflTransGen t.IsSupertype n d := by
  cases h with
  | refl => exact Or.inr ⟨n, rfl, .refl⟩
  | object => exact Or.inl rfl
  | link h => exact Or.inr ⟨_, rfl, h⟩

/-- What is above a reference type is one. -/
theorem SubtypeOf.isReference (h : t.SubtypeOf a b) (ha : a.isReference = true) :
    b.isReference = true := by
  cases h with
  | refl => exact ha
  | null hb => exact hb
  | _ => rfl

/-- The root class has no supertypes but the interfaces that it may be given. -/
theorem Declared.not_isSupertype_objectName (ht : t.Declared)
    (hinterfaces : (t.info objectName).interfaces = [])
    (d : String) : ¬ t.IsSupertype objectName d := by
  unfold IsSupertype ClassInfo.supertypes
  rw [ht.super_objectName, hinterfaces]
  exact List.not_mem_nil

theorem PlainRoots.not_isSupertype (hr : t.PlainRoots) (ht : t.Declared) (d : String) :
    ¬ t.IsSupertype objectName d :=
  ht.not_isSupertype_objectName hr.object d

/-- Above a class whose only supertype is the root class there is nothing else. -/
theorem SubtypeOf.eq_of_links (hobject : ∀ d, ¬ t.IsSupertype objectName d)
    (hn : ∀ d, t.IsSupertype n d → d = objectName) (h : t.SubtypeOf (.cls n) b) : b = .cls n ∨
      b = .cls objectName := by
  rcases h.of_cls with rfl | ⟨d, rfl, hlinks⟩
  · exact Or.inr rfl
  rcases hlinks.cases_head with rfl | ⟨e, hlink, hlinks⟩
  · exact Or.inl rfl
  obtain rfl := hn e hlink
  rcases hlinks.cases_head with rfl | ⟨e, hlink, -⟩
  · exact Or.inr rfl
  · exact absurd hlink (hobject e)

section PlainRoots

variable (ht : t.Declared) (hr : t.PlainRoots)

include ht hr

theorem SubtypeOf.eq_object (h : t.SubtypeOf (.cls objectName) b) : b = .cls objectName :=
  or_self_iff.mp (h.eq_of_links (hr.not_isSupertype ht)
    fun d hd => absurd hd (hr.not_isSupertype ht d))

/-- Above the two interfaces of arrays there is the root class only. -/
theorem SubtypeOf.of_arrays (hn : n ∈ [cloneableName, serializableName])
    (h : t.SubtypeOf (.cls n) b) :
    b = .cls n ∨ b = .cls objectName := by
  obtain ⟨hinterfaces, hsuper⟩ := hr.arrays n hn
  refine h.eq_of_links (hr.not_isSupertype ht) fun d hd => hsuper d ?_
  unfold IsSupertype ClassInfo.supertypes at hd
  rw [hinterfaces, List.append_nil] at hd
  exact Option.mem_toList.mp hd

theorem SubtypeOf.trans (hab : t.SubtypeOf a b) (hbc : t.SubtypeOf b c) : t.SubtypeOf a c := by
  induction hab generalizing c with
  | refl a => exact hbc
  | null hb => exact .null (hbc.isReference hb)
  | object ha =>
    obtain rfl := hbc.eq_object ht hr
    exact .object ha
  | array ha hb h ih =>
    cases hbc with
    | refl => exact .array ha hb h
    | object => exact .object rfl
    | array _ hc hbc => exact .array ha hc (ih hbc)
    | cloneable => exact .cloneable _
    | serializable => exact .serializable _
  | cloneable e =>
    rcases hbc.of_arrays ht hr List.mem_cons_self with rfl | rfl
    · exact .cloneable e
    · exact .object rfl
  | serializable e =>
    rcases hbc.of_arrays ht hr (List.mem_cons_of_mem _ List.mem_cons_self) with rfl | rfl
    · exact .serializable e
    · exact .object rfl
  | link hlinks =>
    rcases hbc.of_cls with rfl | ⟨d, rfl, hlinks'⟩
    · exact .object rfl
    · exact .link (hlinks.trans hlinks')

theorem SubtypeOf.antisymm (hacyclic : t.Acyclic) (hab : t.SubtypeOf a b) (hba : t.SubtypeOf b a) :
    a = b := by
  induction hab with
  | refl a => rfl
  | null hb =>
    cases hba with
    | refl => rfl
    | null => rfl
  | object ha => exact hba.eq_object ht hr
  | array ha hb h ih =>
    cases hba with
    | refl => rfl
    | array _ _ hba => rw [ih hba]
  | cloneable e | serializable e => exact (hba.of_cls).elim nofun nofun
  | @link c d hlinks =>
    rcases hba.of_cls with hc | ⟨c', hc, hlinks'⟩
    · obtain rfl := Ty.cls.inj hc
      exact ((SubtypeOf.link hlinks).eq_object ht hr).symm
    · obtain rfl := Ty.cls.inj hc
      rcases Relation.reflTransGen_iff_eq_or_transGen.mp hlinks with rfl | hup
      · rfl
      · exact absurd (hup.trans_left hlinks') (hacyclic c)

end PlainRoots

end ClassTable

/-! ## Memories -/

namespace Memo

variable {t t' : ClassTable} {m m' : Memo}

/-- The memory gives the answers of the table to subtype questions. -/
def KnowsSubtypes (t : ClassTable) (m : Memo) : Prop :=
  ∀ a b, answer (isSubtype t a b) m = t.isSubtype a b

theorem knowsSubtypes_empty (t : ClassTable) : KnowsSubtypes t {} := by
  intro a b
  obtain ⟨m', hrun, -⟩ := isSubtype_gives t a b {} (faithful_empty t)
  unfold answer
  rw [hrun]

theorem KnowsSubtypes.asked (h : m.KnowsSubtypes t) (hm : Asked t m m') :
    m'.KnowsSubtypes t := fun a b =>
  (hm.same.subtypes a b).trans (h a b)

/-- What is known of one table is known of every table with the same subtypes. -/
theorem KnowsSubtypes.congr (h : m.KnowsSubtypes t)
    (hsame : ∀ a b, t'.isSubtype a b = t.isSubtype a b) :
    m.KnowsSubtypes t' := by
  have hstep : ∀ a b, (a ≠ b → answer (compare t' a b) m = t'.isSubtype a b) →
      answer (isSubtype t' a b) m = t'.isSubtype a b := by
    intro a b hcompare
    by_cases hab : a = b
    · rw [hab, answer_isSubtype_self, t'.isSubtype_refl]
    · have hknown := h a b
      rw [answer_isSubtype_of_ne hab] at hknown ⊢
      cases hl : m.subtypes.lookup (a, b) with
      | some r =>
        rw [hl, Option.getD_some] at hknown
        rw [Option.getD_some, hknown, hsame]
      | none => exact hcompare hab
  intro a
  induction a with
  | array e ih =>
    intro b
    refine hstep _ b fun hne => ?_
    cases b with
    | array e' =>
      rw [compare, t'.isSubtype_array hne]
      split_ifs
      · exact ih e'
      · rfl
    | _ => rfl
  | _ => exact fun b => hstep _ b fun _ => rfl

end Memo

/-! ## Hierarchies that are extended between questions -/

namespace ClassTable

variable {t t' : ClassTable}

/-- The tables to which one mention, one new field or one change of a body leads. -/
inductive Grows (t : ClassTable) : ClassTable → Prop
  | mention (name : String) : Grows t (t.mention name)
  | addField {t' : ClassTable} {on : Ty} {name : String} {type : Option Ty}
    {static : Bool} {f : Field}
    (hok : t.addField on name type static = .ok (f, t')) : Grows t t'
  | body {id : MethodId} {m m' : Method} (hm : t.method? id = some m)
    (hheader : m'.header = m.header) :
    Grows t (t.setMethod m')

/-- The tables to which one mention, one new member or one change of a body leads. -/
inductive Extends (t : ClassTable) : ClassTable → Prop
  | grows {t' : ClassTable} (h : t.Grows t') : Extends t t'
  | addMethod {t' : ClassTable} {on : Ty} {d : MethodDecl} {m : Method}
    (hok : t.addMethod on d = .ok (m, t')) :
    Extends t t'

theorem Grows.declared (h : t.Grows t') (ht : t.Declared) : t'.Declared := by
  cases h with
  | mention name => exact ht.mention name
  | addField hok => exact ht.addField hok
  | body hm hheader => exact ht.body hm hheader

theorem Extends.declared (h : t.Extends t') (ht : t.Declared) : t'.Declared := by
  cases h with
  | grows h => exact h.declared ht
  | addMethod hok => exact ht.addMethod hok

/-- New members leave the supertypes alone. -/
theorem Extends.isSupertype_eq (h : t.Extends t') : t'.IsSupertype = t.IsSupertype := by
  have hset : ∀ {c : String} {i : ClassInfo}, i.supertypes = (t.info c).supertypes →
      (t.set c i).IsSupertype = t.IsSupertype := by
    intro c i hi
    funext a b
    unfold IsSupertype
    rw [info_set]
    split_ifs with ha
    · rw [hi, ha]
    · rfl
  cases h with
  | grows h =>
    cases h with
    | mention name =>
      unfold IsSupertype
      simp only [info_mention]
    | addField hok =>
      rcases addField_eq hok with rfl | ⟨cls, -, rfl⟩
      · rfl
      · exact hset rfl
    | body hm hheader => exact hset rfl
  | addMethod hok =>
    rcases addMethod_eq hok with rfl | ⟨cls, -, rfl⟩
    · rfl
    · exact hset rfl

end ClassTable

namespace Hierarchy

variable {h : Hierarchy} {change : ClassTable → ClassTable → Prop}

/-- The hierarchies whose tables have undergone only such changes since the first question. -/
inductive Since (change : ClassTable → ClassTable → Prop) : Hierarchy → Prop
  | declared {t : ClassTable} (ht : t.Declared) : Since change ⟨t, {}⟩
  | asked {h : Hierarchy} {memo : Memo} (hh : Since change h)
    (hm : Memo.Asked h.table h.memo memo) :
    Since change { h with memo }
  | changed {h : Hierarchy} {t : ClassTable} (hh : Since change h) (ht : change h.table t) :
    Since change { h with table := t }

theorem Since.declared_table (hh : h.Since ClassTable.Extends) : h.table.Declared := by
  induction hh with
  | declared ht => exact ht
  | asked _ _ ih => exact ih
  | changed _ ht ih => exact ht.declared ih

/-- As long as no class is declared after a question, the memory knows the subtypes. -/
theorem Since.knowsSubtypes (hh : h.Since ClassTable.Extends) : h.memo.KnowsSubtypes h.table := by
  induction hh with
  | declared ht => exact Memo.knowsSubtypes_empty _
  | asked _ hm ih => exact ih.asked hm
  | @changed h t hh ht ih =>
    refine ih.congr fun a b => ClassTable.isSubtype_congr hh.declared_table.complete
      (ht.declared hh.declared_table).complete (fun c d => ?_) a b
    rw [ht.isSupertype_eq]

/-- The answer to a subtype question. -/
def isSubtype (h : Hierarchy) (a b : Ty) : Bool := (h.ask fun t => Memo.isSubtype t a b).1

theorem Since.isSubtype_iff (hh : h.Since ClassTable.Extends) (a b : Ty) :
    h.isSubtype a b = true ↔ h.table.SubtypeOf a b := by
  have hanswer : h.isSubtype a b = h.table.isSubtype a b := hh.knowsSubtypes a b
  rw [hanswer, ClassTable.isSubtype_iff_subtypeOf hh.declared_table.complete]

/-- Subtype questions are answered by the rules, also if supertypes go round in circles. The search
through them has come to its end: going on finds nothing new. -/
theorem isSubtype_iff_rules (hh : h.Since ClassTable.Extends) :
    (∀ a b, h.isSubtype a b = true ↔ h.table.SubtypeOf a b) ∧
    ∀ c n, h.table.size + 1 ≤ n →
      levels (fun c => (h.table.info c).supertypes) n [c] [] = h.table.ancestors c :=
  ⟨hh.isSubtype_iff, fun _ _ hn => (ClassTable.ancestors_eq hh.declared_table.complete hn).symm⟩

/-- Two classes that extend each other, and an interface that extends itself. -/
def circles : ClassTable :=
  ((ClassTable.initial.declare "A" { super := "B" }).declare "B"
    { super := "A", interfaces := ["I"] }).declare "I"
    { interface := true, interfaces := ["I"] }

/-- A class was mentioned after a question about the circles. -/
def askedCircles : Hierarchy :=
  let h := (Hierarchy.ask { table := circles } fun t => Memo.isSubtype t (.array (.cls "A"))
    (.array (.cls "I"))).2
  { h with table := h.table.mention "C" }

theorem since_askedCircles : askedCircles.Since ClassTable.Extends := by
  have hdeclared : circles.Declared :=
    ((ClassTable.Declared.initial.declare _ _).declare _ _).declare _ _
  exact .changed (.asked (.declared hdeclared) (.subtype .refl _ _)) (.grows (.mention "C"))

theorem isSubtype_iff_rules_circles :
    askedCircles.table.SubtypeOf (.array (.cls "A")) (.array (.cls "I")) ∧
      ¬ askedCircles.table.SubtypeOf (.cls "C") (.cls "A") := by
  obtain ⟨hrules, -⟩ := isSubtype_iff_rules since_askedCircles
  refine ⟨(hrules _ _).mp (by decide +kernel), fun h => ?_⟩
  exact absurd ((hrules _ _).mpr h) (by decide +kernel)

/-- Subtyping is a preorder, and a partial order if there are no circles. -/
theorem isSubtype_order (hh : h.Since ClassTable.Extends) (hr : h.table.PlainRoots) :
    (∀ a, h.isSubtype a a = true) ∧
    (∀ a b c, h.isSubtype a b = true → h.isSubtype b c = true → h.isSubtype a c = true) ∧
    (h.table.Acyclic → ∀ a b, h.isSubtype a b = true → h.isSubtype b a = true → a = b) := by
  have ht := hh.declared_table
  simp only [hh.isSubtype_iff]
  exact ⟨.refl, fun _ _ _ hab hbc => hab.trans ht hr hbc,
    fun hacyclic _ _ hab hba => hab.antisymm ht hr hacyclic hba⟩

/-- A list is a collection, and may be copied as arrays may. -/
def lists : Hierarchy where
  table := (ClassTable.initial.declare "List" { interfaces := ["Collection"] }).declare "Collection"
    { interface := true, interfaces := [cloneableName] }

theorem isSubtype_order_lists :
    lists.isSubtype (.array (.cls "List")) (.array (.cls cloneableName)) = true ∧
      ∀ a, lists.isSubtype a (.cls "List") = true → lists.isSubtype (.cls "List") a = true →
        a = .cls "List" := by
  have hdeclared : lists.table.Declared := (ClassTable.Declared.initial.declare _ _).declare _ _
  have hroots : lists.table.PlainRoots := ⟨by decide +kernel, by decide +kernel⟩
  have hacyclic : lists.table.Acyclic :=
    (ClassTable.acyclic_iff hdeclared.complete).mpr (by decide +kernel)
  obtain ⟨-, htrans, hantisymm⟩ := isSubtype_order (.declared hdeclared) hroots
  have hlower : lists.isSubtype (.array (.cls "List")) (.array (.cls "Collection")) = true := by
    decide +kernel
  have hupper : lists.isSubtype (.array (.cls "Collection")) (.array (.cls cloneableName)) =
      true := by decide +kernel
  exact ⟨htrans _ _ _ hlower hupper, fun a hab hba => hantisymm hacyclic _ _ hab hba⟩

end Hierarchy

end PointsTo
