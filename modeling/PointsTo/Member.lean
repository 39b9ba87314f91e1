import PointsTo.Ty

/-!
# Methods, variables and fields by identity

A class has at most one method of each subsignature and at most one field of each name, and keeps
them for good. So a method is identified by its class and the text of its subsignature, and a field
by its class and name; a variable belongs to one method.
-/

namespace PointsTo

/-- What identifies a method: its class, and its subsignature as text. -/
structure MethodId where
  cls : String
  subsig : String
  deriving DecidableEq, Repr

instance : Inhabited MethodId := ⟨⟨"", ""⟩⟩

/-- `<Class: ret name(p1,p2)>`. -/
def MethodId.signature (m : MethodId) : String := "<" ++ m.cls ++ ": " ++ m.subsig ++ ">"

/-- A local variable, parameter or receiver variable of a method. Variables that stand in the table
of their method have `tag` 0 and are told apart by their names; a variable made beside the table
carries a tag of its own. -/
structure Var where
  name : String
  owner : MethodId
  type : Option Ty
  tag : Nat := 0
  deriving DecidableEq, Repr

/-- A variable that may be absent, as it stands in statements. -/
def Var.shown : Option Var → String
  | none => "<nil>"
  | some v => v.name

/-- A field. -/
structure Field where
  cls : String
  name : String
  type : Option Ty
  static : Bool
  deriving DecidableEq, Repr

/-- `<Class: Type name>`. -/
def Field.signature (f : Field) : String :=
  "<" ++ f.cls ++ ": " ++ Ty.shown f.type ++ " " ++ f.name ++ ">"

end PointsTo
