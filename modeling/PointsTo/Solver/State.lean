import PointsTo.CallGraph
import PointsTo.Dispatch
import PointsTo.FlowGraph
import PointsTo.Queue

/-!
# The state of the solver

The solver keeps what it has found so far (a flow graph over `Pointer`s, the abstract objects, a
call graph, diagnostics), the work that is still to be done, and the statements that wait for
objects to reach their base variable.
-/

namespace PointsTo

/-- A place that holds references. Objects are given by their numbers. -/
inductive Pointer
  | var (v : Var)
  | field (o : Nat) (f : Field)
  | static (f : Field)
  | elem (o : Nat)
  deriving DecidableEq, Repr

/-- The text of an object of a heap. -/
def objectText (heap : Array Site) (o : Nat) : String := ((heap[o]?).map Site.text).getD ""

/-- The text of a pointer. -/
def Pointer.text (heap : Array Site) : Pointer → String
  | var v => v.owner.signature ++ "/" ++ v.name
  | field o f => "[" ++ objectText heap o ++ "]." ++ f.name
  | static f => f.signature
  | elem o => "[" ++ objectText heap o ++ "][*]"

/-- A piece of work: objects that arrive at a pointer, or a method that has become reachable. -/
inductive Work
  | delta (pointer : Nat) (objects : ObjSet)
  | method (m : MethodId)

/-- A receiver object for which a call could not be resolved; a static call has none. -/
structure Diagnostic where
  site : Stmt
  object : Option Nat
  error : ResolutionError

/-- `<parent>: call: error`. -/
def Diagnostic.text (d : Diagnostic) : String :=
  d.site.parent.signature ++ ": " ++ Fault.shown d.site.text? ++ ": " ++ d.error.message

/-- Things worth telling while the solver runs. -/
inductive Event
  | reachable (m : MethodId)
  | flowEdge (kind : EdgeKind) (source target : Nat)
  | callEdge (site : Stmt) (callee : MethodId)
  | unresolved (site : Stmt) (error : ResolutionError)

/-- The state of the solver. -/
structure Solver where
  memo : Memo := {}
  queue : Queue Work := .empty
  flow : FlowGraph Pointer := .empty
  /-- The allocations behind the objects, by number. -/
  heap : Array Site := #[]
  calls : CallGraph Stmt MethodId := {}
  /-- Statements that are performed for each object that reaches their base, oldest first. -/
  waiting : List Instr := []
  diagnostics : Array Diagnostic := #[]
  events : Array Event := #[]
  /-- Every pointer and object in the order in which the object was found to be pointed to. -/
  facts : Array (Nat × Nat) := #[]
  steps : Nat := 0
  /-- What ended the work before its time. -/
  fault : Option Fault := none

namespace Solver

/-- The type of an object. -/
def typeOf? (s : Solver) (o : Nat) : Option Ty := (s.heap[o]?).map Site.type

/-- Tells an event. -/
def tell (s : Solver) (e : Event) : Solver := { s with events := s.events.push e }

/-- Ends the work with a fault. -/
def fail (s : Solver) (f : Fault) : Solver := { s with fault := some f }

/-- Asks a question that uses the memory. -/
def ask {α : Type} (s : Solver) (q : StateM Memo α) : α × Solver :=
  let (a, memo) := q.run s.memo
  (a, { s with memo })

/-- The node of a pointer, which is added if there is none. -/
def pointer (s : Solver) (p : Pointer) : Nat × Solver :=
  let (i, flow) := s.flow.intern p
  (i, { s with flow })

/-- The object of an allocation, which is added if there is none. -/
def object (s : Solver) (site : Site) : Nat × Solver :=
  match s.heap.findIdx? fun h => h = site with
  | some o => (o, s)
  | none => (s.heap.size, { s with heap := s.heap.push site })

/-- Adds the work of objects that arrive at a pointer. -/
def enqueue (s : Solver) (p : Nat) (objects : ObjSet) : Solver :=
  { s with queue := s.queue.push (.delta p objects) }

/-- Marks a method as reachable; if it was not before, its body is work to be done. -/
def addReachable (s : Solver) (m : MethodId) : Solver :=
  let (fresh, calls) := s.calls.addReachable m
  let s := { s with calls }
  if fresh then { s with queue := s.queue.push (.method m) } else s

/-- Marks a method as an entry. -/
def addEntry (s : Solver) (m : MethodId) : Solver :=
  let (fresh, calls) := s.calls.addEntry m
  let s := { s with calls }
  if fresh then { s with queue := s.queue.push (.method m) } else s

end Solver

end PointsTo
