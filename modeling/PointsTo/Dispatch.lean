import PointsTo.Hierarchy

/-!
# Targets of calls

A static call runs the static method that its reference denotes, a special call the concrete
instance method that its reference denotes, and a virtual or interface call the method that the type
of the receiver selects.
-/

namespace PointsTo

namespace Call

/-- Turns down a resolved method that does not pass a test. -/
def require (t : ClassTable) (type : Ty) (subsig : String) (ok : Method → Bool)
    (reason : MethodId → Reason) : Resolution → Resolution
  | .error e => .error e
  | .ok m => if (t.method? m).any ok then .ok m else .error ⟨type, subsig, reason m⟩

/-- The target of a call on a receiver of a given type. -/
def target (t : ClassTable) (c : Call) (recv : Option Ty) : StateM Memo Target :=
  match c.ref.subsig? with
  | none => pure (.error .absent)
  | some subsig =>
    match c.kind with
    | .static =>
      match c.ref.cls with
      | none => pure (.error .absent)
      | some type => do
        let r ← Memo.resolveMethod t type subsig
        pure (r.map (require t type subsig (fun m => m.static) .notStatic))
    | .special =>
      match c.ref.cls with
      | none => pure (.error .absent)
      | some type => do
        let r ← Memo.resolveMethod t type subsig
        pure (r.map (require t type subsig (fun m => !m.static && !m.abstract) .notConcrete))
    | .virtual | .interface =>
      match recv with
      | some type => Memo.resolveVirtual t type subsig
      | none => pure (.error (.noReceiver c.kind (Fault.shown c.text?)))
    | .other _ => pure (.error (.unknownCallKind c.kind))

end Call

end PointsTo
