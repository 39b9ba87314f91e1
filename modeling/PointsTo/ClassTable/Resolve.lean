import PointsTo.ClassTable.Subtype

/-!
# Which method is meant

`selectVirtual` finds the method that a virtual call runs on a receiver of a given type: the nearest
non-static declaration on the superclass chain, or else the one maximally specific declaration with
a body in the superinterfaces. `selectMethod` finds what a method reference denotes: any declaration
on the chain, or else a maximally specific one in the superinterfaces, abstract or not. If no class
of the chain declares the method and the chain has no end, neither search comes to an end.

Both ask subtype questions only to compare interface declarations, and take the answer from a
function `le` in a monad, so that the same text serves with and without a memo table.
-/

namespace PointsTo

/-- Why no method was found. -/
inductive Reason
  | receiverKind (kind : Kind)
  | abstractOnChain (cls : String)
  | conflict (first second : String)
  | abstractDefault (cls : String)
  | noImplementation
  | noMethods (kind : Kind)
  | noDeclaration
  | notStatic (m : MethodId)
  | notConcrete (m : MethodId)
  deriving DecidableEq, Repr

/-- What is said about a reason. -/
def Reason.text : Reason → String
  | receiverKind kind => "receiver is a " ++ kind.text ++ " type"
  | abstractOnChain cls => "most-derived declaration in " ++ cls ++ " is abstract"
  | conflict first second => "conflicting default methods in " ++ first ++ " and " ++ second
  | abstractDefault cls => "most specific declaration in " ++ cls ++ " is abstract"
  | noImplementation => "no implementation found"
  | noMethods kind => kind.text ++ " type declares no methods"
  | noDeclaration => "no declaration found"
  | notStatic m => m.signature ++ " is not static"
  | notConcrete m => m.signature ++ " is not a concrete instance method"

/-- A subsignature that could not be resolved on a type. -/
structure ResolutionError where
  type : Ty
  subsig : String
  reason : Reason
  deriving DecidableEq, Repr

/-- What is said about a failed resolution. -/
def ResolutionError.message (e : ResolutionError) : String :=
  "cannot resolve " ++ e.subsig ++ " on " ++ e.type.name ++ ": " ++ e.reason.text

/-- The outcome of a resolution. -/
abbrev Resolution := Except ResolutionError MethodId

/-- What came of looking for a method: a fault if there is no answer, otherwise a method or the
reason why there is none. -/
abbrev Target := Except Fault Resolution

/-- The members of a list that pass a test in a monad, tested in order. -/
def keepM {m : Type → Type} [Monad m] {α : Type} (p : α → m Bool) : List α → m (List α)
  | [] => pure []
  | a :: as => do
    let keep ← p a
    let rest ← keepM p as
    pure (if keep then a :: rest else rest)

/-- Whether a member of a list passes a test in a monad; members after the first that does are not
tested. -/
def anyM {m : Type → Type} [Monad m] {α : Type} (p : α → m Bool) : List α → m Bool
  | [] => pure false
  | a :: as => do
    if ← p a then pure true else anyM p as

namespace ClassTable

/-- The first class of a list that declares a method with a given property. -/
def firstDeclaring (t : ClassTable) (p : Method → Bool) (subsig : String) (classes : List String) :
    Option Method :=
  classes.findSome? fun c => (t.method? ⟨c, subsig⟩).filter p

/-- The non-static declarations of a subsignature in the superinterfaces of a class, nearest
first. -/
def interfaceDeclarations (t : ClassTable) (c subsig : String) : List Method :=
  (t.superinterfaces c).filterMap fun i => (t.method? ⟨i, subsig⟩).filter fun m => !m.static

/-- The declarations whose class has no other one of them in a subtype. -/
def maximallySpecific {m : Type → Type} [Monad m] (le : Ty → Ty → m Bool) (ds : List Method) :
    m (List Method) :=
  keepM
    (fun d => do
      let overridden ← anyM
        (fun o => if o.cls = d.cls then pure false else le (.cls o.cls) (.cls d.cls)) ds
      pure !overridden)
    ds

/-- The class in which the search for a virtual method starts: arrays have the methods of the root
class, and interfaces, primitives and null have none. -/
def receiverClass? (t : ClassTable) (type : Ty) : Option String :=
  let c? := match type with
    | .cls c => some c
    | .array _ => some objectName
    | _ => none
  c?.filter fun c => !(t.info c).interface

/-- The choice between the maximally specific declarations for a virtual call. -/
def pickVirtual (type : Ty) (subsig : String) (ds : List Method) : Resolution :=
  match ds.filter fun m => !m.abstract with
  | [m] => .ok m.id
  | m₁ :: m₂ :: _ => .error ⟨type, subsig, .conflict m₁.cls m₂.cls⟩
  | [] =>
    match ds with
    | d :: _ => .error ⟨type, subsig, .abstractDefault d.cls⟩
    | [] => .error ⟨type, subsig, .noImplementation⟩

/-- The choice between the maximally specific declarations for a method reference. -/
def pickMethod (type : Ty) (subsig : String) (ds : List Method) : Resolution :=
  match ds.filter fun m => !m.abstract with
  | [m] => .ok m.id
  | _ =>
    match ds with
    | d :: _ => .ok d.id
    | [] => .error ⟨type, subsig, .noDeclaration⟩

/-- Looks for a method on the chain of a class, and then in its superinterfaces. -/
def search {m : Type → Type} [Monad m] (t : ClassTable) (le : Ty → Ty → m Bool) (p : Method → Bool)
    (found : Method → Resolution) (pick : List Method → Resolution)
    (c subsig : String) : m Target :=
  match t.firstDeclaring p subsig (t.chain c) with
  | some m => pure (.ok (found m))
  | none =>
    if t.isEndless c then pure (.error (.endlessChain c))
    else do
      let ds ← maximallySpecific le (t.interfaceDeclarations c subsig)
      pure (.ok (pick ds))

/-- The method that a virtual call runs on a receiver of a type. -/
def selectVirtual {m : Type → Type} [Monad m] (t : ClassTable) (le : Ty → Ty → m Bool) (type : Ty)
    (subsig : String) : m Target :=
  match t.receiverClass? type with
  | none => pure (.ok (.error ⟨type, subsig, .receiverKind (t.kind type)⟩))
  | some c =>
    t.search le (fun m => !m.static)
      (fun m => if m.abstract then .error ⟨type, subsig, .abstractOnChain m.cls⟩ else .ok m.id)
      (pickVirtual type subsig) c subsig

/-- The method that a reference to a type denotes. -/
def selectMethod {m : Type → Type} [Monad m] (t : ClassTable) (le : Ty → Ty → m Bool) (type : Ty)
    (subsig : String) : m Target :=
  match type with
  | .cls c => t.search le (fun _ => true) (fun m => .ok m.id) (pickMethod type subsig) c subsig
  | _ => pure (.ok (.error ⟨type, subsig, .noMethods (t.kind type)⟩))

/-- `selectVirtual` with the subtype test of the table itself. -/
def resolveVirtual (t : ClassTable) (type : Ty) (subsig : String) : Target :=
  Id.run (t.selectVirtual (fun a b => pure (t.isSubtype a b)) type subsig)

/-- `selectMethod` with the subtype test of the table itself. -/
def resolveMethod (t : ClassTable) (type : Ty) (subsig : String) : Target :=
  Id.run (t.selectMethod (fun a b => pure (t.isSubtype a b)) type subsig)

end ClassTable

end PointsTo
