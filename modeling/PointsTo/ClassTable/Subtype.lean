import PointsTo.ClassTable.Reach

/-!
# Subtyping

`isSubtype sub sup` says whether a value of type `sub` may stand where `sup` is expected: the types
are equal; or both are references and `sub` is null, or `sup` is the root class, or the two are
arrays whose element types are references in the same relation, or an array meets one of the two
interfaces of arrays, or `sup` is among the supertypes of the class `sub`.
-/

namespace PointsTo.ClassTable

/-- Whether the class `sub` is the class `sup` or has it among its supertypes. -/
def isSubclass (t : ClassTable) (sub sup : String) : Bool := sup ∈ t.ancestors sub

/-- Whether values of type `sub` may be stored in places of type `sup`. -/
def isSubtype (t : ClassTable) : Ty → Ty → Bool
  | .prim p, sup => sup = .prim p
  | .null, sup => sup.isReference
  | .array a, .array b => a = b || (a.isReference && b.isReference && isSubtype t a b)
  | .array _, .cls c => c = objectName || c = cloneableName || c = serializableName
  | .cls c, .cls d => d = objectName || t.isSubclass c d
  | _, _ => false

end PointsTo.ClassTable
