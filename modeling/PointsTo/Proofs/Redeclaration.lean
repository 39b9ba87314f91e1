import Mathlib.Data.List.Basic
import PointsTo.Proofs.ClassTable
import PointsTo.Workbench.Construction

/-!
# Classes that are declared again

A class may be declared any number of times, before and after it comes up in other requests for
types. What is known about it follows from the list of its declarations (`Follows`): whether it is
abstract and what it extends is a matter of the last one, but any declaration as an interface makes
it an interface for good.

So interfaces are abstract and have no superclass as long as none of them is declared again as a
class, and if one is, it still counts as an interface (`TypeRequest.table_follows_declarations`,
`TypeRequest.exists_interface_with_super`). This also goes for the two interfaces of arrays, which
are declared from the start.
-/

namespace PointsTo

/-! ## Requests for types -/

/-- What may be asked of a workbench to come by a type. -/
inductive TypeRequest
  | declare (name : String) (d : ClassDecl)
  | classNamed (name : String)
  | arrayOf (elem : Option Ty)
  | primitive (name : String)
  | typeNamed (name : String)

namespace TypeRequest

/-- The operation of a request. -/
def action : TypeRequest → Workbench.Action Ty
  | declare name d => Workbench.declare name d
  | classNamed name => Workbench.classNamed name
  | arrayOf elem => Workbench.arrayOf elem
  | primitive name => Workbench.primitive name
  | typeNamed name => Workbench.typeNamed name

/-- The workbench after a request, which may have no answer. -/
def after (r : TypeRequest) (w : Workbench) : Workbench := (r.action.run.run w).2

/-- The class table after requests to a new workbench. -/
def table (rs : List TypeRequest) : ClassTable :=
  (rs.foldl (fun w r => r.after w) ({ program := {} } : Workbench)).program.table

/-- The declaration of a class that a request makes, if it makes one. -/
def declares? (n : String) : TypeRequest → Option ClassDecl
  | declare name d => if name = n then some d else none
  | _ => none

/-- What a new workbench declares by itself: the two interfaces of arrays. -/
def predeclared : List TypeRequest :=
  [declare cloneableName { interface := true }, declare serializableName { interface := true }]

/-- All declarations of a class, in order. -/
def declarations (n : String) (rs : List TypeRequest) : List ClassDecl :=
  (predeclared ++ rs).filterMap (declares? n)

end TypeRequest

/-! ## One declaration after the other -/

/-- The superclass that a declaration gives to a class. The root class has none. -/
def ClassDecl.superOf (d : ClassDecl) (n : String) : Option String :=
  if d.interface = true ∨ n = objectName then none
    else some (if d.super = "" then objectName else d.super)

namespace ClassInfo

/-- What is known about a class whose declarations are given in order. -/
structure Follows (n : String) (ds : List ClassDecl) (i : ClassInfo) : Prop where
  interface : i.interface = ds.any ClassDecl.interface
  abstract : i.abstract = ds.getLast?.any fun d => d.abstract || d.interface
  super : i.super = (ds.getLast?.elim (ClassInfo.mentioned n).super fun d => d.superOf n)
  interfaces : i.interfaces = ds.getLast?.elim [] ClassDecl.interfaces

namespace Follows

variable {n : String} {ds : List ClassDecl} {i : ClassInfo} {d : ClassDecl}

theorem super_objectName (h : i.Follows objectName ds) : i.super = none := by
  rw [h.super]
  cases ds.getLast? with
  | none => rfl
  | some d => exact if_pos (Or.inr rfl)

/-- The last declaration decides, except about the kind. -/
theorem eq_of_getLast? (h : i.Follows n ds) (hd : ds.getLast? = some d) :
    i.abstract = (d.abstract || d.interface) ∧ i.super = d.superOf n ∧
      i.interfaces = d.interfaces := by
  rw [h.abstract, h.super, h.interfaces, hd]
  exact ⟨rfl, rfl, rfl⟩

theorem of_last_interface (h : i.Follows n ds) (hd : ds.getLast? = some d)
    (hitf : d.interface = true) :
    i.abstract = true ∧ i.super = none := by
  obtain ⟨habstract, hsuper, -⟩ := h.eq_of_getLast? hd
  rw [habstract, hsuper, hitf]
  exact ⟨Bool.or_true _, if_pos (Or.inl hitf)⟩

/-- Any declaration as an interface decides about the kind. -/
theorem interface_eq_true_iff (h : i.Follows n ds) :
    i.interface = true ↔ ∃ d ∈ ds, d.interface = true := by
  rw [h.interface, List.any_eq_true]

theorem interface_eq_false_iff (h : i.Follows n ds) :
    i.interface = false ↔ ∀ d ∈ ds, d.interface = false := by
  rw [h.interface, List.any_eq_false]
  simp only [Bool.not_eq_true]

end Follows

end ClassInfo

namespace ClassTable

variable {t : ClassTable} {n : String} {ds : List ClassDecl}

theorem kind_cls_eq_interface : t.kind (.cls n) = .interface ↔ (t.info n).interface = true := by
  rw [kind]
  split_ifs with h <;> simp [h]

theorem kind_cls_eq_cls : t.kind (.cls n) = .cls ↔ (t.info n).interface = false := by
  rw [kind]
  split_ifs with h <;> simp [h]

theorem eq_cls_of_kind_eq_interface {type : Ty} (h : t.kind type = .interface) :
    ∃ n, type = .cls n := by
  cases type with
  | cls n => exact ⟨n, rfl⟩
  | null => cases h
  | prim p => cases h
  | array elem => cases h

/-- One more declaration of a class is added to those before, and one of another class is not. -/
theorem follows_declare (h : (t.info n).Follows n ds) (name : String) (d : ClassDecl) :
    ((t.declare name d).info n).Follows n (ds ++ (if name = n then some d else none).toList) := by
  unfold declare
  dsimp only
  rw [info_mentionAll, info_set]
  by_cases hname : n = name
  · subst hname
    rw [if_pos rfl, if_pos rfl, Option.toList_some]
    refine ⟨?_, ?_, ?_, ?_⟩
    · dsimp only
      rw [h.interface, List.any_append, List.any_cons, List.any_nil, Bool.or_false, Bool.or_comm]
    · rw [List.getLast?_concat, Option.any_some]
    · rw [List.getLast?_concat, Option.elim_some, ClassDecl.superOf]
      by_cases hroot : n = objectName
      · subst hroot
        -- a declaration as a class leaves the superclass of the root class as it was, and it had
        -- none
        rw [if_pos (Or.inr rfl), if_pos rfl, h.super_objectName, ite_self]
      · simp only [hroot, or_false, if_false]
    · rw [List.getLast?_concat, Option.elim_some]
  · rw [if_neg hname, if_neg (Ne.symm hname), Option.toList_none, List.append_nil]
    exact h

end ClassTable

namespace TypeRequest

theorem follows_after {w : Workbench} {n : String} {ds : List ClassDecl}
    (h : (w.program.table.info n).Follows n ds) (r : TypeRequest) :
    ((r.after w).program.table.info n).Follows n (ds ++ (r.declares? n).toList) := by
  have hkept {t : ClassTable} (ht : t.info n = w.program.table.info n) : (t.info n).Follows n
      (ds ++ []) := by
    rwa [ht, List.append_nil]
  cases r with
  | declare name d => exact ClassTable.follows_declare h name d
  | classNamed name => exact hkept (ClassTable.info_mentionTypes ..)
  | arrayOf elem => cases elem <;> exact hkept rfl
  | primitive name =>
    unfold after action Workbench.primitive
    dsimp only
    split <;> exact hkept rfl
  | typeNamed name => exact hkept (ClassTable.info_mentionTypes ..)

/-- A request adds at most one declaration of a class. -/
theorem filterMap_declares?_cons (n : String) (r : TypeRequest) (rs : List TypeRequest) :
    (r :: rs).filterMap (declares? n) = (r.declares? n).toList ++ rs.filterMap (declares? n) := by
  rw [List.filterMap_eq_flatMap_toList, List.flatMap_cons, ← List.filterMap_eq_flatMap_toList]

theorem follows_foldl {n : String} (rs : List TypeRequest) {w : Workbench} {ds : List ClassDecl}
    (h : (w.program.table.info n).Follows n ds) :
    ((rs.foldl (fun w r => r.after w) w).program.table.info n).Follows n
    (ds ++ rs.filterMap (declares? n)) := by
  induction rs generalizing w ds with
  | nil => rwa [List.filterMap_nil, List.append_nil]
  | cons r rs ih =>
    rw [filterMap_declares?_cons, ← List.append_assoc]
    exact ih (follows_after h r)

/-- The root class is mentioned only, and the two interfaces of arrays are declared. -/
theorem follows_initial (n : String) :
    (ClassTable.initial.info n).Follows n (predeclared.filterMap (declares? n)) := by
  have hroot : ((ClassTable.set {} objectName { super := none, declared := true }).info n).Follows n
      [] := by
    rw [ClassTable.info_set]
    split_ifs with hn
    · subst hn
      exact ⟨rfl, rfl, rfl, rfl⟩
    · exact ⟨rfl, rfl, rfl, rfl⟩
  unfold predeclared
  rw [filterMap_declares?_cons, filterMap_declares?_cons, List.filterMap_nil, List.append_nil]
  exact ClassTable.follows_declare (ClassTable.follows_declare hroot cloneableName _)
    serializableName _

theorem follows_table (n : String) (rs : List TypeRequest) :
    ((table rs).info n).Follows n (declarations n rs) := by
  unfold declarations
  rw [List.filterMap_append]
  exact follows_foldl rs (follows_initial n)

theorem kind_cls_eq_interface_iff (n : String) (rs : List TypeRequest) :
    (table rs).kind (.cls n) = .interface ↔ ∃ d ∈ declarations n rs, d.interface = true := by
  rw [← (follows_table n rs).interface_eq_true_iff]
  exact ClassTable.kind_cls_eq_interface

theorem kind_cls_eq_cls_iff (n : String) (rs : List TypeRequest) :
    (table rs).kind (.cls n) = .cls ↔ ∀ d ∈ declarations n rs, d.interface = false := by
  rw [← (follows_table n rs).interface_eq_false_iff]
  exact ClassTable.kind_cls_eq_cls

/-- After any requests to a new workbench, the interfaces are the classes that were ever declared as
such, and the last declaration of a class decides about all else. So interfaces are abstract and
have no superclass, and what was last declared as a class is one, exactly as far as no interface was
declared again as a class. -/
theorem table_follows_declarations (rs : List TypeRequest) :
    (∀ type, (table rs).kind type = .interface ↔
      ∃ n, type = .cls n ∧ ∃ d ∈ declarations n rs, d.interface = true) ∧
    (∀ n d, (declarations n rs).getLast? = some d →
      ((table rs).info n).abstract = (d.abstract || d.interface) ∧
      ((table rs).info n).super = d.superOf n ∧
      ((table rs).info n).interfaces = d.interfaces) ∧
    ∀ n,
      ((table rs).kind (.cls n) = .interface →
        ((table rs).info n).abstract = true ∧ ((table rs).info n).super = none) ∧
      (∀ d, (declarations n rs).getLast? = some d → d.interface = false →
        (table rs).kind (.cls n) = .cls) ↔
      ∀ d, (declarations n rs).getLast? = some d → d.interface = false →
        ∀ e ∈ declarations n rs, e.interface = false := by
  refine ⟨fun type => ?_, fun n d hd => (follows_table n rs).eq_of_getLast? hd, fun n => ⟨?_,
    fun h => ⟨?_, ?_⟩⟩⟩
  · constructor
    · intro hkind
      obtain ⟨n, rfl⟩ := ClassTable.eq_cls_of_kind_eq_interface hkind
      exact ⟨n, rfl, (kind_cls_eq_interface_iff n rs).mp hkind⟩
    · rintro ⟨n, rfl, hitf⟩
      exact (kind_cls_eq_interface_iff n rs).mpr hitf
  · rintro ⟨-, hlast⟩ d hd hcls
    exact (kind_cls_eq_cls_iff n rs).mp (hlast d hd hcls)
  · intro hkind
    obtain ⟨e, he, hitf⟩ := (kind_cls_eq_interface_iff n rs).mp hkind
    obtain ⟨d, hd⟩ :=
      Option.ne_none_iff_exists'.mp (mt List.getLast?_eq_none_iff.mp (List.ne_nil_of_mem he))
    -- were the last declaration one of a class, there would be no interface before it
    have hditf : d.interface = true := by
      by_contra hcls
      rw [h d hd (Bool.eq_false_iff.mpr hcls) e he] at hitf
      exact Bool.false_ne_true hitf
    exact (follows_table n rs).of_last_interface hd hditf
  · intro d hd hcls
    exact (kind_cls_eq_cls_iff n rs).mpr (h d hd hcls)

/-- A shape that is first an interface and then a class, after its arrays came up. -/
def redeclared : List TypeRequest :=
  [declare "Shape" { interface := true }, typeNamed "Shape[]", arrayOf none,
    declare "Shape" { super := "Figure" }]

theorem table_follows_declarations_redeclared :
    (declarations "Shape" redeclared).getLast? = some { super := "Figure" } ∧
    ((table redeclared).info "Shape").super = some "Figure" ∧
    ¬ (((table redeclared).kind (.cls "Shape") = .interface →
        ((table redeclared).info "Shape").abstract = true ∧
        ((table redeclared).info "Shape").super = none) ∧
      (∀ d, (declarations "Shape" redeclared).getLast? = some d → d.interface = false →
        (table redeclared).kind (.cls "Shape") = .cls)) := by
  obtain ⟨-, hlast, hproper⟩ := table_follows_declarations redeclared
  refine ⟨rfl, (hlast "Shape" _ rfl).2.1, fun h => ?_⟩
  have hcls := (hproper "Shape").mp h _ rfl rfl { interface := true } (List.mem_cons_self ..)
  exact Bool.false_ne_true hcls.symm

/-- An interface that is declared again as a class stays one, but is no longer abstract and has a
superclass. -/
theorem exists_interface_with_super :
    ∃ rs n d, (declarations n rs).getLast? = some d ∧ d.interface = false ∧
      (table rs).kind (.cls n) = .interface ∧
      ((table rs).info n).abstract = false ∧ ((table rs).info n).super = some objectName :=
  ⟨[declare "Shape" { interface := true }, declare "Shape" {}], "Shape", {}, rfl,
    rfl, by decide +kernel⟩

end TypeRequest

end PointsTo
