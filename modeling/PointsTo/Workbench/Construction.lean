import PointsTo.Workbench.State

/-!
# Putting a program together

Operations that declare classes, members, variables and statements, and that ask the class table.
-/

namespace PointsTo.Workbench

/-! ## Types -/

/-- The type of a name. -/
def typeNamed (name : String) : Action Ty := do
  let type := Ty.ofName name
  mention [type]
  return type

/-- The class of a name. -/
def classNamed (name : String) : Action Ty := do
  mention [.cls name]
  return .cls name

/-- The primitive type of a name. -/
def primitive (name : String) : Action Ty :=
  match Prim.ofName? name with
  | some p => pure (.prim p)
  | none => fail (.notPrimitive name)

/-- The type of arrays with elements of a type. -/
def arrayOf (elem : Option Ty) : Action Ty := do return .array (← need elem)

/-- Declares a class or interface. -/
def declare (name : String) (d : ClassDecl) : Action Ty := do
  setTable ((← table).declare name d)
  return .cls name

/-- Whether a type is a subtype of another. Two absent types are equal, and a primitive type is no
subtype of an absent one. -/
def isSubtype (sub sup : Option Ty) : Action Bool :=
  match sub, sup with
  | some a, some b => ask fun t => Memo.isSubtype t a b
  | none, none => pure true
  | some a, none => if a.isReference then fail .absent else pure false
  | none, some _ => fail .absent

/-- The method that is asked for, or the error that there is none. -/
def askTarget (q : ClassTable → StateM Memo Target) : Action MethodId := do
  match ← orFail (← ask q) with
  | .ok m => return m
  | .error e => throw (.resolution e)

/-- The method that a virtual call runs, or the error that there is none. -/
def resolveVirtual (type : Option Ty) (subsig : String) : Action MethodId := do
  let type ← need type
  askTarget fun t => Memo.resolveVirtual t type subsig

/-- The method that a reference denotes, or the error that there is none. -/
def resolveMethod (type : Option Ty) (subsig : String) : Action MethodId := do
  let type ← need type
  askTarget fun t => Memo.resolveMethod t type subsig

/-! ## Members -/

/-- The field that a class itself declares. -/
def fieldNamed (cls name : String) : Action (Option Field) := do
  mention [.cls cls]
  return (← table).field? cls name

/-- The nearest field of a name. -/
def fieldByName (type : Option Ty) (name : String) : Action (Option Field) := do
  return (← table).fieldByName (← need type) name

/-- Declares a field. -/
def addField (on : Option Ty) (name : String) (type : Option Ty) (static : Bool) :
    Action Field := do
  let on ← need on
  let (f, t) ← orFail ((← table).addField on name type static)
  setTable t
  return f

/-- Declares a method. A return type that is absent is `void`; a parameter type must be there. -/
def addMethod (on : Option Ty) (name : String) (params : List (Option Ty)) (ret : Option Ty)
    (names : List String) (static abstract native : Bool) : Action Method := do
  let on ← need on
  let t ← table
  match on with
  | .cls _ =>
    let params ← need (allSome params)
    let sub : Subsig := ⟨name, params, ret.getD (.prim .void)⟩
    let (m, t) ← orFail (t.addMethod on ⟨sub, names, static, abstract, native⟩)
    setTable t
    return m
  | _ => fail (.cannotDeclare "method" name (t.kind on) on)

/-- The method that a type itself declares. -/
def declaredMethod (on : Option Ty) (subsig : String) : Action (Option Method) := do
  match ← need on with
  | .cls c => return (← table).method? ⟨c, subsig⟩
  | _ => return none

/-- Reads a signature or a subsignature, noting the types that it mentions. -/
def reading {α : Type} (r : Reading α) : Action α := do
  mention r.mentions
  match r.value with
  | .ok a => return a
  | .error e => throw (.signature e)

/-- The method of a signature, or the error that there is none. -/
def findMethod (signature : String) : Action MethodId := do
  let w ← get
  let (r, program) := w.program.lookup signature
  set { w with program }
  match r with
  | .ok m => return m
  | .error e => throw (.lookup e)

/-! ## Bodies -/

/-- The variable of a method, if there is one of the name. -/
def varNamed (m : Option MethodId) (name : String) : Action (Option Var) := do
  return (← method m).var? name

/-- A variable of a method that does not stand in its table. An absent method has none. -/
def looseVar (m : Option MethodId) (name : String) (type : Option Ty) : Action (Option Var) := do
  let w ← get
  set { w with loose := w.loose + 1 }
  return m.map fun owner => { name, owner, type, tag := w.loose + 1 }

/-- Declares a variable. -/
def newVar (m : Option MethodId) (name : String) (type : Option Ty) : Action Var := do
  let (v, m) ← orFail ((← method m).newVar name type)
  setMethod m
  return v

/-- Adds a statement, and answers how many there are. -/
def addStmt (m : Option MethodId) (op : Op) : Action Nat := do
  let m := (← method m).add op
  setMethod m
  return m.body.length

/-- The statement of a method at a position. -/
def stmtAt (m : Option MethodId) (i : Nat) : Action Stmt := do need ((← method m).body[i]?)

/-- The text of a statement. -/
def stmtText (s : Stmt) : Action String := need s.text?

/-- Puts a statement of any method into a body without adding it, and answers how many there are. -/
def shareStmt (m : Option MethodId) (s : Stmt) : Action Nat := do
  let m ← method m
  let m := { m with body := m.body ++ [s] }
  setMethod m
  return m.body.length

/-- Puts the statements of a body into the order of the given positions, and answers their texts. -/
def reorder (m : Option MethodId) (order : List Nat) : Action (List String) := do
  let m ← method m
  let m := { m with body := order.filterMap fun i => m.body[i]? }
  setMethod m
  need (allSome (m.body.map Stmt.text?))

/-- Sets the entry methods, and answers how many there are. -/
def setEntries (entries : List (Option MethodId)) : Action Nat := do
  modify fun w => { w with program := { w.program with entries } }
  return entries.length

/-- Everything that is wrong with the program. -/
def violations : Action (List Violation) := return (← get).program.violations

/-- The call kind of a name. -/
def callKindNamed (name : String) : Action CallKind :=
  match CallKind.ofText? name with
  | some k => pure k
  | none => throw (.callKind name)

end PointsTo.Workbench
