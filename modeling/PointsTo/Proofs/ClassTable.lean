import Mathlib.Tactic.Common
import PointsTo.ClassTable

/-!
# Look-ups in a class table, and the tables that declarations build

1. What `info` and `method?` find after each operation on a table. Mentioning a class changes
   nothing, and only `addMethod` and `setMethod` change methods.
2. `Method.Added` are the methods that arise from a declaration by adding variables and statements.
   Their returned variables are those of their return statements (`Added.collected`).
3. `ClassTable.Declared` are the tables that arise by declaring classes, fields and methods and by
   giving bodies to methods. In such a table every method stands under its identity
   (`Declared.id_eq`).
-/

namespace PointsTo

open Std (TreeMap)

theorem values_eq_map_toList {β : Type} (m : TreeMap String β) :
    m.values = m.toList.map Prod.snd := by
  have h : m.values = m.foldr (fun _ v l => v :: l) [] := rfl
  rw [h, TreeMap.foldr_eq_foldr_toList]
  induction m.toList with
  | nil => rfl
  | cons a l ih => rw [List.foldr_cons, ih, List.map_cons]

theorem mem_values {β : Type} {m : TreeMap String β} {b : β} :
    b ∈ m.values ↔ ∃ k : String, m[k]? = some b := by
  rw [values_eq_map_toList, List.mem_map]
  constructor
  · rintro ⟨⟨k, b'⟩, h, rfl⟩
    exact ⟨k, TreeMap.mem_toList_iff_getElem?_eq_some.mp h⟩
  · rintro ⟨k, h⟩
    exact ⟨(k, b), TreeMap.mem_toList_iff_getElem?_eq_some.mpr h, rfl⟩

theorem getElem?_insert {β : Type} {m : TreeMap String β} {k k' : String} {b : β} :
    (m.insert k b)[k']? = if k' = k then some b else m[k']? := by
  rw [TreeMap.getElem?_insert]
  refine if_congr ?_ rfl rfl
  rw [Std.LawfulEqOrd.compare_eq_iff_eq, eq_comm]

namespace ClassTable

variable {t t' : ClassTable} {name name' : String} {c : ClassInfo} {m : Method} {id : MethodId}

/-! ## Classes -/

theorem info_set : (t.set name c).info name' = if name' = name then c else t.info name' := by
  unfold info set
  dsimp only
  rw [getElem?_insert]
  split_ifs <;> rfl

@[simp] theorem info_mention (t : ClassTable) (name name' : String) :
    (t.mention name).info name' = t.info name' := by
  unfold mention
  split_ifs with h
  · rfl
  · rw [info_set]
    split_ifs with hname
    · subst hname
      have hnone : t.entries[name']? = none := 
        TreeMap.getElem?_eq_none_of_contains_eq_false (Bool.eq_false_iff.mpr h)
      unfold info
      rw [hnone]
      rfl
    · rfl

@[simp] theorem info_mentionAll (t : ClassTable) (names : List String) (name : String) :
    (t.mentionAll names).info name = t.info name := by
  unfold mentionAll
  induction names generalizing t with
  | nil => rfl
  | cons n ns ih => rw [List.foldl_cons, ih, info_mention]

@[simp] theorem info_mentionTypes (t : ClassTable) (types : List Ty) (name : String) :
    (t.mentionTypes types).info name = t.info name := info_mentionAll ..

/-! ## Methods -/

theorem method?_congr (h : ∀ name, (t'.info name).methods = (t.info name).methods) (id : MethodId) :
    t'.method? id = t.method? id := by
  unfold method?
  rw [h]

@[simp] theorem method?_mentionTypes (t : ClassTable) (types : List Ty) (id : MethodId) :
    (t.mentionTypes types).method? id = t.method? id :=
  method?_congr (fun name => by rw [info_mentionTypes]) id

@[simp] theorem method?_mention (t : ClassTable) (name : String) (id : MethodId) :
    (t.mention name).method? id = t.method? id :=
  method?_congr (fun name' => by rw [info_mention]) id

@[simp] theorem method?_declare (t : ClassTable) (name : String) (d : ClassDecl) (id : MethodId) :
    (t.declare name d).method? id = t.method? id := by
  refine method?_congr (fun name' => ?_) id
  unfold declare
  dsimp only
  rw [info_mentionAll, info_set]
  by_cases h : name' = name
  · rw [if_pos h, h]
  · rw [if_neg h]

/-- A field that is there already stays, and one that is not is added to its class. -/
theorem addField_eq {on : Ty} {type : Option Ty} {static : Bool} {f : Field}
    (h : t.addField on name type static = .ok (f, t')) :
    t' = t ∨ ∃ cls, f = { cls, name, type, static } ∧
      t' = t.set cls { t.info cls with fields := (t.info cls).fields.insert name f } := by
  unfold addField at h
  split at h
  · next cls =>
    split at h
    · obtain ⟨-, rfl⟩ := Prod.mk.inj (Except.ok.inj h)
      exact Or.inl rfl
    · obtain ⟨rfl, rfl⟩ := Prod.mk.inj (Except.ok.inj h)
      exact Or.inr ⟨cls, rfl, rfl⟩
  · exact nomatch h

theorem method?_addField {on : Ty} {type : Option Ty} {static : Bool} {f : Field}
    (h : t.addField on name type static = .ok (f, t')) (id : MethodId) :
      t'.method? id = t.method? id := by
  rcases addField_eq h with rfl | ⟨cls, -, rfl⟩
  · rfl
  · refine method?_congr (fun name' => ?_) id
    rw [info_set]
    split_ifs with hname
    · rw [hname]
    · rfl

theorem method?_setMethod (t : ClassTable) (m : Method) (id : MethodId) :
    (t.setMethod m).method? id = if id = m.id then some m else t.method? id := by
  unfold setMethod method?
  rw [info_set]
  obtain ⟨cls, subsig⟩ := id
  by_cases hcls : cls = m.cls
  · subst hcls
    rw [if_pos rfl, getElem?_insert]
    by_cases hsub : subsig = m.sub.text
    · rw [if_pos hsub, if_pos (by rw [hsub]; rfl)]
    · rw [if_neg hsub, if_neg fun h => hsub (congrArg MethodId.subsig h)]
  · rw [if_neg hcls, if_neg fun h => hcls (congrArg MethodId.cls h)]

/-- The methods with the identities under which they are looked up. -/
def keyed (t : ClassTable) : List (MethodId × Method) :=
  t.entries.toList.flatMap fun c => c.2.methods.toList.map fun m => (⟨c.1, m.1⟩, m.2)

theorem mem_keyed : (id, m) ∈ t.keyed ↔ t.method? id = some m := by
  unfold keyed
  rw [List.mem_flatMap]
  constructor
  · rintro ⟨⟨cls, c⟩, hc, hm⟩
    obtain ⟨⟨subsig, m'⟩, hm', heq⟩ := List.mem_map.mp hm
    obtain ⟨rfl, rfl⟩ := Prod.mk.inj heq
    have hcls := TreeMap.mem_toList_iff_getElem?_eq_some.mp hc
    unfold method? info
    rw [hcls]
    exact TreeMap.mem_toList_iff_getElem?_eq_some.mp hm'
  · intro h
    unfold method? info at h
    cases hc : t.entries[id.cls]? with
    | none =>
      rw [hc] at h
      simp [ClassInfo.mentioned] at h
    | some c =>
      rw [hc] at h
      exact ⟨(id.cls, c), TreeMap.mem_toList_iff_getElem?_eq_some.mpr hc,
        List.mem_map.mpr ⟨(id.subsig, m), TreeMap.mem_toList_iff_getElem?_eq_some.mpr h, rfl⟩⟩

theorem map_snd_keyed (t : ClassTable) : t.keyed.map Prod.snd = t.methods := by
  unfold keyed methods
  rw [values_eq_map_toList, List.flatMap_map, List.map_flatMap]
  simp only [values_eq_map_toList, List.map_map]
  rfl

/-- All methods are those that can be looked up. -/
theorem mem_methods_of_method? (h : t.method? id = some m) : m ∈ t.methods :=
  map_snd_keyed t ▸ List.mem_map_of_mem (mem_keyed.mpr h)

theorem exists_method?_of_mem (h : m ∈ t.methods) : ∃ id, t.method? id = some m := by
  rw [← map_snd_keyed] at h
  obtain ⟨⟨id, m'⟩, hmem, rfl⟩ := List.mem_map.mp h
  exact ⟨id, mem_keyed.mp hmem⟩

end ClassTable

/-! ## Methods that grow -/

namespace Method

variable {m m' : Method} {v : Var} {name : String} {type : Option Ty}

/-- The methods that arise from a declaration by declaring variables and adding statements. -/
inductive Added : Method → Prop
  | decl {cls : String} {d : MethodDecl} {m : Method} (h : ofDecl cls d = .ok m) : Added m
  | newVar {m m' : Method} {name : String} {type : Option Ty} {v : Var} (h : Added m)
    (hok : m.newVar name type = .ok (v, m')) : Added m'
  | add {m : Method} (h : Added m) (op : Op) : Added (m.add op)

/-- The declaration of a method, without what belongs to its body. -/
def header (m : Method) : Method := { m with vars := ∅, body := [], added := 0, returned := [] }

/-- The returned variables are those of the return statements. -/
def Collected (m : Method) : Prop := ∀ v, v ∈ m.returned ↔ ∃ s ∈ m.body, s.returned? = some v

/-- The variables that the method has by name are its own. -/
def OwnsVars (m : Method) : Prop := ∀ name v, m.var? name = some v → v.owner = m.id

theorem id_eq_of_header_eq (h : m'.header = m.header) : m'.id = m.id := by
  show m'.header.id = m.header.id
  rw [h]

theorem newVar_eq (h : m.newVar name type = .ok (v, m')) : ∃ vars, m' = { m with vars } := by
  unfold newVar at h
  split at h
  · split_ifs at h
    obtain ⟨-, rfl⟩ := Prod.mk.inj (Except.ok.inj h)
    exact ⟨m.vars, rfl⟩
  · obtain ⟨-, rfl⟩ := Prod.mk.inj (Except.ok.inj h)
    exact ⟨_, rfl⟩

/-- What is declared has the type of the declaration, and belongs to the method if all variables
do. -/
theorem of_newVar (h : m.newVar name type = .ok (v, m')) :
    v.type = type ∧ (m.OwnsVars → v.owner = m.id ∧ m'.OwnsVars) := by
  unfold newVar at h
  split at h
  · next v' hv =>
    split_ifs at h with htype
    obtain ⟨rfl, rfl⟩ := Prod.mk.inj (Except.ok.inj h)
    exact ⟨htype, fun hm => ⟨hm name v' hv, hm⟩⟩
  · obtain ⟨rfl, rfl⟩ := Prod.mk.inj (Except.ok.inj h)
    refine ⟨rfl, fun hm => ⟨rfl, fun name' v' hv' => ?_⟩⟩
    unfold var? at hv'
    dsimp only at hv'
    rw [getElem?_insert] at hv'
    split_ifs at hv'
    · rw [← Option.some.inj hv']
      rfl
    · exact hm name' v' hv'

/-- The variables that are added for parameters have the types of the parameters, in order. -/
theorem addFormals_eq {names : List String} {ts : List Ty} :
    ∀ {i : Nat} {m m' : Method}, addFormals names i ts m = .ok m' →
      ∃ vars formals, formals.map Var.type = ts.map some ∧
        (m.OwnsVars → ∀ v ∈ formals, v.owner = m.id) ∧
        m' = { m with vars, formals := m.formals ++ formals } := by
  induction ts with
  | nil =>
    intro i m m' h
    obtain rfl := Except.ok.inj h
    exact ⟨m.vars, [], rfl, fun _ => by simp, by rw [List.append_nil]⟩
  | cons type ts ih =>
    intro i m m' h
    unfold addFormals at h
    split at h
    · exact nomatch h
    · next v m₁ hvar =>
      obtain ⟨htype, hown⟩ := of_newVar hvar
      obtain ⟨vars₁, rfl⟩ := newVar_eq hvar
      obtain ⟨vars, formals, htypes, howns, rfl⟩ := ih h
      refine ⟨vars, v :: formals, by rw [List.map_cons, htype, htypes, List.map_cons],
        fun hm => ?_, ?_⟩
      · exact List.forall_mem_cons.mpr ⟨(hown hm).1, howns (hown hm).2⟩
      · simp only [List.append_assoc, List.singleton_append]

theorem ofDecl_eq {cls : String} {d : MethodDecl} (h : ofDecl cls d = .ok m) :
    ∃ receiver vars formals, formals.map Var.type = d.sub.params.map some ∧
      (∀ v ∈ receiver, v.owner = m.id) ∧ (∀ v ∈ formals, v.owner = m.id) ∧
      m = { cls, sub := d.sub, static := d.static, abstract := d.abstract, native := d.native,
            receiver, vars, formals } := by
  have hempty : ∀ {m : Method}, m.vars = ∅ → m.OwnsVars := by
    intro m hm name v hv
    unfold var? at hv
    rw [hm] at hv
    simp at hv
  unfold ofDecl at h
  dsimp only at h
  split_ifs at h
  · obtain ⟨vars, formals, htypes, howns, rfl⟩ := addFormals_eq h
    exact ⟨none, vars, formals, htypes, nofun, howns (hempty rfl), rfl⟩
  · split at h
    · exact nomatch h
    · next v m₁ hvar =>
      obtain ⟨-, hown⟩ := of_newVar hvar
      obtain ⟨hv, hvars⟩ := hown (hempty rfl)
      obtain ⟨vars₁, rfl⟩ := newVar_eq hvar
      obtain ⟨vars, formals, htypes, howns, rfl⟩ := addFormals_eq h
      exact ⟨some v, vars, formals, htypes, fun _ h => Option.some.inj h ▸ hv, howns hvars, rfl⟩

theorem header_newVar (h : m.newVar name type = .ok (v, m')) : m'.header = m.header := by
  obtain ⟨vars, rfl⟩ := newVar_eq h
  rfl

theorem collected_ofDecl {cls : String} {d : MethodDecl} (h : ofDecl cls d = .ok m) :
    m.Collected := by
  obtain ⟨receiver, vars, formals, -, -, -, rfl⟩ := ofDecl_eq h
  intro v
  simp

theorem Collected.newVar (hm : m.Collected) (h : m.newVar name type = .ok (v, m')) :
    m'.Collected := by
  obtain ⟨vars, rfl⟩ := newVar_eq h
  exact hm

theorem Collected.add (hm : m.Collected) (op : Op) : (m.add op).Collected := by
  intro v
  unfold Method.add
  simp only [List.mem_append, List.mem_singleton, or_and_right, exists_or, exists_eq_left, ← hm v]
  split
  · next x hx =>
    rw [hx]
    split_ifs with hmem
    · constructor
      · exact Or.inl
      · rintro (h | h)
        · exact h
        · exact Option.some.inj h ▸ hmem
    · rw [List.mem_append, List.mem_singleton, Option.some.injEq, eq_comm (a := v)]
  · next hx =>
    rw [hx]
    simp

theorem Added.collected (hm : m.Added) : m.Collected := by
  induction hm with
  | decl h => exact collected_ofDecl h
  | newVar _ hok ih => exact ih.newVar hok
  | add _ op ih => exact ih.add op

end Method

/-! ## Tables that are declared -/

namespace ClassTable

variable {t : ClassTable} {m : Method} {id : MethodId}

/-- The tables that arise by declarations and by giving bodies to methods. -/
inductive Declared : ClassTable → Prop
  | initial : Declared .initial
  | mention {t : ClassTable} (h : Declared t) (name : String) : Declared (t.mention name)
  | declare {t : ClassTable} (h : Declared t) (name : String) (d : ClassDecl) : Declared
    (t.declare name d)
  | addField {t t' : ClassTable} {on : Ty} {name : String} {type : Option Ty}
    {static : Bool} {f : Field}
    (h : Declared t) (hok : t.addField on name type static = .ok (f, t')) : Declared t'
  | addMethod {t t' : ClassTable} {on : Ty} {d : MethodDecl} {m : Method} (h : Declared t)
    (hok : t.addMethod on d = .ok (m, t')) : Declared t'
  | body {t : ClassTable} {id : MethodId} {m m' : Method} (h : Declared t)
    (hm : t.method? id = some m)
    (hheader : m'.header = m.header) : Declared (t.setMethod m')

theorem method?_initial (id : MethodId) : initial.method? id = none := by
  unfold initial
  rw [method?_declare, method?_declare]
  unfold method?
  rw [info_set]
  split_ifs
  · simp
  · simp [info, ClassInfo.mentioned]

theorem addMethod_eq {t' : ClassTable} {on : Ty} {d : MethodDecl}
    (h : t.addMethod on d = .ok (m, t')) :
    t' = t ∨ ∃ cls, Method.ofDecl cls d = .ok m ∧ t' = t.setMethod m := by
  unfold addMethod at h
  split at h
  · next cls =>
    split at h
    · obtain ⟨-, rfl⟩ := Prod.mk.inj (Except.ok.inj h)
      exact Or.inl rfl
    · split at h
      · exact nomatch h
      · next m' hdecl =>
        obtain ⟨rfl, rfl⟩ := Prod.mk.inj (Except.ok.inj h)
        exact Or.inr ⟨cls, hdecl, rfl⟩
  · exact nomatch h

/-- What holds of methods that were just declared, and does not depend on their bodies, holds of all
methods. -/
theorem Declared.method_induction {q : MethodId → Method → Prop}
    (hdecl : ∀ {cls : String} {d : MethodDecl} {m : Method}, Method.ofDecl cls d = .ok m → q m.id m)
    (hbody : ∀ {id : MethodId} {m m' : Method}, q id m → m'.header = m.header → q m'.id m')
    (ht : t.Declared) : ∀ id m, t.method? id = some m → q id m := by
  have hset : ∀ {t : ClassTable} {m : Method}, (∀ id m, t.method? id = some m → q id m) → q m.id m →
      ∀ id m', (t.setMethod m).method? id = some m' → q id m' := by
    intro t m ih hm id m' h
    rw [method?_setMethod] at h
    split_ifs at h with hid
    · obtain rfl := Option.some.inj h
      exact hid ▸ hm
    · exact ih id m' h
  induction ht with
  | initial =>
    intro id m h
    rw [method?_initial] at h
    exact nomatch h
  | mention h name ih =>
    intro id m hm
    rw [method?_mention] at hm
    exact ih id m hm
  | declare h name d ih =>
    intro id m hm
    rw [method?_declare] at hm
    exact ih id m hm
  | addField h hok ih =>
    intro id m hm
    rw [method?_addField hok] at hm
    exact ih id m hm
  | addMethod h hok ih =>
    rcases addMethod_eq hok with rfl | ⟨cls, hmethod, rfl⟩
    · exact ih
    · exact hset ih (hdecl hmethod)
  | body h hm hheader ih => exact hset ih (hbody (ih _ _ hm) hheader)

/-- Methods stand under their identities. -/
theorem Declared.id_eq (ht : t.Declared) (hm : t.method? id = some m) : m.id = id :=
  ht.method_induction (q := fun id m => m.id = id) (fun _ => rfl) (fun _ _ => rfl) id m hm

/-- Receivers and parameters belong to their methods. -/
theorem Declared.owner_eq (ht : t.Declared) (hm : t.method? id = some m) :
    (∀ v ∈ m.receiver, v.owner = id) ∧ ∀ v ∈ m.formals, v.owner = id := by
  refine (ht.method_induction
    (q := fun id m => m.id = id ∧ (∀ v ∈ m.receiver, v.owner = id) ∧ ∀ v ∈ m.formals, v.owner = id)
    (fun hdecl => ?_) (fun {id m m'} h hheader => ?_) id m hm).2
  · obtain ⟨receiver, vars, formals, -, hreceiver, hformals, rfl⟩ := Method.ofDecl_eq hdecl
    exact ⟨rfl, hreceiver, hformals⟩
  · obtain ⟨rfl, hreceiver, hformals⟩ := h
    have hreceiver' : m'.header.receiver = m.header.receiver := by rw [hheader]
    have hformals' : m'.header.formals = m.header.formals := by rw [hheader]
    rw [Method.id_eq_of_header_eq hheader]
    exact ⟨rfl, fun v hv => hreceiver v (hreceiver' ▸ hv), fun v hv => hformals v (hformals' ▸ hv)⟩

/-- The root class has no superclass, whatever is declared. -/
theorem Declared.super_objectName (ht : t.Declared) : (t.info objectName).super = none := by
  -- giving members to a class leaves its superclass alone
  have hset : ∀ {t : ClassTable} {c : String} {i : ClassInfo}, i.super = (t.info c).super →
      (t.info objectName).super = none → ((t.set c i).info objectName).super = none := by
    intro t c i hi h
    rw [info_set]
    split_ifs with hc
    · rw [hi, ← hc, h]
    · exact h
  induction ht with
  | initial => decide +kernel
  | mention _ name ih => rwa [info_mention]
  | declare _ name d ih =>
    unfold ClassTable.declare
    dsimp only
    rw [info_mentionAll, info_set]
    by_cases hname : objectName = name
    · subst hname
      rw [if_pos rfl, if_pos rfl, ih]
      exact ite_self none
    · rwa [if_neg hname]
  | addField _ hok ih =>
    rcases addField_eq hok with rfl | ⟨cls, -, rfl⟩
    · exact ih
    · exact hset rfl ih
  | addMethod _ hok ih =>
    rcases addMethod_eq hok with rfl | ⟨cls, -, rfl⟩
    · exact ih
    · exact hset rfl ih
  | body _ hm hheader ih => exact hset rfl ih

end ClassTable

end PointsTo
