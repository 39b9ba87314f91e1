import PointsTo.Method

/-!
# The class table

The table holds every class and interface that was declared or merely mentioned. A class that was
only mentioned extends `java.lang.Object` and has no members; looking up a class that the table does
not hold gives the same answer, so `mention` changes no look-up.

A class may be declared more than once. The last declaration gives its supertypes and whether it is
abstract, members accumulate, and a class that was ever declared an interface stays one.
-/

namespace PointsTo

open Std (TreeMap)

/-- What is known about a class or interface. -/
structure ClassInfo where
  interface : Bool := false
  super : Option String
  interfaces : List String := []
  abstract : Bool := false
  declared : Bool := false
  /-- The declared fields, by name. -/
  fields : TreeMap String Field := ∅
  /-- The declared methods, by the text of their subsignatures. -/
  methods : TreeMap String Method := ∅

/-- A class that was only mentioned. -/
def ClassInfo.mentioned (name : String) : ClassInfo :=
  { super := if name = objectName then none else some objectName }

/-- The direct supertypes: the superclass, then the interfaces in order. -/
def ClassInfo.supertypes (c : ClassInfo) : List String := c.super.toList ++ c.interfaces

/-- The declaration of a class or interface. A superclass that is not named is
`java.lang.Object`. -/
structure ClassDecl where
  super : String := ""
  interfaces : List String := []
  interface : Bool := false
  abstract : Bool := false

/-- All classes and interfaces, by name. -/
structure ClassTable where
  entries : TreeMap String ClassInfo := ∅

namespace ClassTable

/-- What is known about a class. -/
def info (t : ClassTable) (name : String) : ClassInfo := (t.entries[name]?).getD (.mentioned name)

/-- Replaces what is known about a class. -/
def set (t : ClassTable) (name : String) (c : ClassInfo) : ClassTable := ⟨t.entries.insert name c⟩

/-- The names of all classes, in ascending order. -/
def names (t : ClassTable) : List String := t.entries.keys

/-- The number of classes. -/
def size (t : ClassTable) : Nat := t.entries.size

/-- Notes that a class was mentioned. -/
def mention (t : ClassTable) (name : String) : ClassTable :=
  if t.entries.contains name then t else t.set name (.mentioned name)

/-- Notes that classes were mentioned. -/
def mentionAll (t : ClassTable) (names : List String) : ClassTable := names.foldl mention t

/-- Notes that types were mentioned. -/
def mentionTypes (t : ClassTable) (types : List Ty) : ClassTable :=
  t.mentionAll (types.filterMap Ty.className?)

/-- Declares a class or interface. -/
def declare (t : ClassTable) (name : String) (d : ClassDecl) : ClassTable :=
  let old := t.info name
  let super :=
    if d.interface then none
    else if name = objectName then old.super
    else some (if d.super = "" then objectName else d.super)
  let t := t.set name
    { old with
      interface := d.interface || old.interface
      super
      interfaces := d.interfaces
      abstract := d.abstract || d.interface
      declared := true }
  t.mentionAll (super.toList ++ d.interfaces)

/-- The table of a program without classes of its own: the root class and the two interfaces of
arrays. -/
def initial : ClassTable :=
  let t : ClassTable := set {} objectName { super := none, declared := true }
  let t := t.declare cloneableName { interface := true }
  t.declare serializableName { interface := true }

/-- The kind of a type. -/
def kind (t : ClassTable) : Ty → Kind
  | .null => .null
  | .prim _ => .primitive
  | .array _ => .array
  | .cls n => if (t.info n).interface then .interface else .cls

/-! ## Members -/

/-- The field that a class itself declares. -/
def field? (t : ClassTable) (cls name : String) : Option Field := (t.info cls).fields[name]?

/-- The method that a class itself declares. -/
def method? (t : ClassTable) (m : MethodId) : Option Method := (t.info m.cls).methods[m.subsig]?

/-- The fields that a type declares, in the order of their names. -/
def fieldsOf (t : ClassTable) : Ty → List Field
  | .cls n => (t.info n).fields.values
  | _ => []

/-- The methods that a type declares, in the order of their subsignatures. -/
def methodsOf (t : ClassTable) : Ty → List Method
  | .cls n => (t.info n).methods.values
  | _ => []

/-- Replaces a method by one with the same identity. -/
def setMethod (t : ClassTable) (m : Method) : ClassTable :=
  let c := t.info m.cls
  t.set m.cls { c with methods := c.methods.insert m.sub.text m }

/-- Declares a field. A field that is there already stays as it is. -/
def addField (t : ClassTable) (on : Ty) (name : String) (type : Option Ty) (static : Bool) :
    Except Fault (Field × ClassTable) :=
  match on with
  | .cls cls =>
    match t.field? cls name with
    | some f => .ok (f, t)
    | none =>
      let f : Field := { cls, name, type, static }
      let c := t.info cls
      .ok (f, t.set cls { c with fields := c.fields.insert name f })
  | _ => .error (.cannotDeclare "field" name (t.kind on) on)

/-- Declares a method. A method that is there already stays as it is. -/
def addMethod (t : ClassTable) (on : Ty) (d : MethodDecl) : Except Fault (Method × ClassTable) :=
  match on with
  | .cls cls =>
    match t.method? ⟨cls, d.sub.text⟩ with
    | some m => .ok (m, t)
    | none =>
      match Method.ofDecl cls d with
      | .error e => .error e
      | .ok m => .ok (m, t.setMethod m)
  | _ => .error (.cannotDeclare "method" d.sub.name (t.kind on) on)

/-- All methods, class by class. -/
def methods (t : ClassTable) : List Method := t.entries.values.flatMap fun c => c.methods.values

end ClassTable

end PointsTo
