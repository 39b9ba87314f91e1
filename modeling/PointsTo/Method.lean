import PointsTo.Fault
import Std.Data.TreeMap

/-!
# Methods

A method is declared with its types, its receiver variable (unless it is static) and one variable
for each parameter. Its body is a list of statements in which order carries no meaning for the
analysis; it grows by `add`, which also collects the returned variables.
-/

namespace PointsTo

open Std (TreeMap)

/-- A declared method with its body. -/
structure Method where
  cls : String
  sub : Subsig
  static : Bool
  abstract : Bool
  native : Bool
  receiver : Option Var := none
  formals : List Var := []
  /-- All variables of the method, by name. -/
  vars : TreeMap String Var := ∅
  body : List Stmt := []
  /-- How many statements were added so far. -/
  added : Nat := 0
  /-- The variables that return statements return, each once. -/
  returned : List Var := []

/-- The form in which a method is declared. -/
structure MethodDecl where
  sub : Subsig
  /-- Names for the first parameters; a parameter without one is called `p0`, `p1`, … -/
  names : List String := []
  static : Bool := false
  abstract : Bool := false
  native : Bool := false

namespace Method

/-- What identifies the method. -/
def id (m : Method) : MethodId := ⟨m.cls, m.sub.text⟩

/-- `<Class: ret name(p1,p2)>`. -/
def signature (m : Method) : String := m.id.signature

/-- Whether the method may have statements. -/
def hasBody (m : Method) : Bool := !m.abstract && !m.native

/-- A reference to the method. -/
def ref (m : Method) : MethodRef := .ofSignature ⟨m.cls, m.sub⟩

/-- The variable of a name. -/
def var? (m : Method) (name : String) : Option Var := m.vars[name]?

/-- All variables in the order of their names. -/
def varList (m : Method) : List Var := m.vars.values

/-- Declares a variable. A name may be declared again with the same type, and then stands for the
same variable. -/
def newVar (m : Method) (name : String) (type : Option Ty) : Except Fault (Var × Method) :=
  match m.var? name with
  | some v => if v.type = type then .ok (v, m) else .error (.redeclared m.id name type v.type)
  | none =>
    let v : Var := { name, owner := m.id, type }
    .ok (v, { m with vars := m.vars.insert name v })

/-- Adds a statement to the body. -/
def add (m : Method) (op : Op) : Method :=
  let s : Stmt := ⟨⟨m.id, m.added⟩, op⟩
  { m with
    body := m.body ++ [s]
    added := m.added + 1
    returned :=
      match s.returned? with
      | some v => if v ∈ m.returned then m.returned else m.returned ++ [v]
      | none => m.returned }

/-- The call statements of the body, in order. -/
def calls (m : Method) : List Stmt := m.body.filter fun s => s.call?.isSome

/-- The statements of the body that have their operands in place, in order. -/
def instrs (m : Method) : List Instr := m.body.filterMap Stmt.instr?

/-- The name of the parameter at a position. -/
def paramName (names : List String) (i : Nat) : String :=
  match names[i]? with
  | some n => if n = "" then "p" ++ toString i else n
  | none => "p" ++ toString i

/-- Declares the variables of the parameters from position `i` on. -/
def addFormals (names : List String) : Nat → List Ty → Method → Except Fault Method
  | _, [], m => .ok m
  | i, t :: ts, m =>
    match m.newVar (paramName names i) (some t) with
    | .error e => .error e
    | .ok (v, m) => addFormals names (i + 1) ts { m with formals := m.formals ++ [v] }

/-- A method of a class with its receiver and parameter variables. -/
def ofDecl (cls : String) (d : MethodDecl) : Except Fault Method :=
  let m : Method :=
    { cls, sub := d.sub, static := d.static, abstract := d.abstract, native := d.native }
  if d.static then addFormals d.names 0 d.sub.params m
  else
    match m.newVar "this" (some (.cls cls)) with
    | .error e => .error e
    | .ok (v, m) => addFormals d.names 0 d.sub.params { m with receiver := some v }

end Method

end PointsTo
