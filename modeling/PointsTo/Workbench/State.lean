import PointsTo.Description.Build
import PointsTo.Report

/-!
# The workbench

On a workbench a program is put together, changed, asked about and analysed step by step. Beside the
program there lie the last result, a golden file, a call graph and a flow graph drawn by hand, and
objects made by hand. Operands may be absent, and an operation that cannot do without one ends with
a fault.
-/

namespace PointsTo

/-- An abstract object: one that a run of the analysis found, or one made by hand. -/
inductive Obj
  | found (run id : Nat) (site : Site)
  | made (index : Nat) (site : Stmt)
  deriving DecidableEq, Repr

namespace Obj

/-- The number of an object; those made by hand have number zero. -/
def id : Obj → Nat
  | found _ id _ => id
  | made .. => 0

/-- The type of an object. -/
def type : Obj → Option Ty
  | found _ _ site => some site.type
  | made _ s =>
    match s.op with
    | .new _ type => type
    | _ => none

/-- The text of an object. -/
def text : Obj → String
  | found _ _ site => site.text
  | made _ s => Fault.shown s.text? ++ "@" ++ s.parent.signature

end Obj

/-- A place that holds references, with operands that may be absent. -/
inductive Place
  | var (v : Option Var)
  | field (o : Option Obj) (f : Option Field)
  | static (f : Option Field)
  | elem (o : Option Obj)
  deriving DecidableEq, Repr

namespace Place

/-- An object that may be absent, as it stands in the text of a place. -/
def shownObject (o : Option Obj) : String := ((o.map Obj.text).getD "<nil>")

/-- The text of a place. It needs the variable or the field. -/
def text : Place → Except Fault String
  | var v => Fault.orAbsent (v.map fun v => v.owner.signature ++ "/" ++ v.name)
  | field o f => Fault.orAbsent (f.map fun f => "[" ++ shownObject o ++ "]." ++ f.name)
  | static f => Fault.orAbsent (f.map Field.signature)
  | elem o => .ok ("[" ++ shownObject o ++ "][*]")

/-- The text of a place as it stands in messages. -/
def shown (p : Place) : String :=
  match p.text with
  | .ok s => s
  | .error f => f.placeholder "v"

/-- The number of an object in a given run. -/
def numberIn (run : Nat) : Option Obj → Option Nat
  | some (.found r id _) => if r = run then some id else none
  | _ => none

/-- The pointer of a run of the analysis that a place stands for, if it has one. -/
def pointerIn? (run : Nat) : Place → Option Pointer
  | var v => v.map .var
  | field o f => do return .field (← numberIn run o) (← f)
  | static f => f.map .static
  | elem o => (numberIn run o).map .elem

end Place

/-- A workbench. -/
structure Workbench where
  program : Program
  /-- How many runs of the analysis had a result. -/
  runs : Nat := 0
  /-- The result of the last of them. -/
  result : Option Result := none
  checker : Option Golden.Checker := none
  calls : CallGraph Stmt (Option MethodId) := {}
  flow : FlowGraph Place := .empty
  /-- The nodes of the flow graph that were asked for, in order. -/
  handles : Array Nat := #[]
  /-- The allocations behind the objects made by hand. -/
  objects : Array Stmt := #[]
  /-- How many variables were made beside the tables of their methods. -/
  loose : Nat := 0

namespace Workbench

/-- Why an operation has no answer. -/
inductive Error
  | fault (f : Fault)
  | signature (e : SignatureError)
  | lookup (e : MethodLookupError)
  | callKind (text : String)
  | resolution (e : ResolutionError)
  | analysis (e : AnalysisError)
  | golden (e : Golden.Error)
  deriving DecidableEq, Repr

/-- What is said about an operation without an answer. -/
def Error.message : Error → String
  | fault f => f.message
  | signature e => e.message
  | lookup e => e.message
  | callKind s => CallKind.unknownMessage s
  | resolution e => e.message
  | analysis e => e.message
  | golden e => e.message

/-- An operation on a workbench. What it changed before an error stays changed. -/
abbrev Action := ExceptT Error (StateM Workbench)

/-- Ends with a fault. -/
def fail {α : Type} (f : Fault) : Action α := throw (.fault f)

/-- The value of an option; that it is absent is a fault. -/
def need {α : Type} : Option α → Action α
  | some a => pure a
  | none => fail .absent

/-- The value of a computation that may have a fault. -/
def orFail {α : Type} : Except Fault α → Action α
  | .ok a => pure a
  | .error f => fail f

/-- The class table. -/
def table : Action ClassTable := return (← get).program.table

/-- Replaces the class table. -/
def setTable (t : ClassTable) : Action Unit :=
  modify fun w => { w with program := w.program.withTable t }

/-- Notes that types were mentioned. -/
def mention (types : List Ty) : Action Unit :=
  modify fun w => { w with program := w.program.mentionTypes types }

/-- Asks a question that uses the memory of the hierarchy. -/
def ask {α : Type} (q : ClassTable → StateM Memo α) : Action α := do
  let w ← get
  let (a, hierarchy) := w.program.hierarchy.ask q
  set { w with program := { w.program with hierarchy } }
  return a

/-- A method that must be there. -/
def method (m : Option MethodId) : Action Method := do need ((← get).program.method? (← need m))

/-- Replaces a method by one with the same identity. -/
def setMethod (m : Method) : Action Unit := do setTable ((← table).setMethod m)

end Workbench

end PointsTo
