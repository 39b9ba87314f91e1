import PointsTo.Program.Validation
import PointsTo.Solver.Run

/-!
# The analysis

`Program.analyze` checks that a program is in order and runs the solver on it. The result has the
flow graph with what every pointer points to, the objects, the call graph and the diagnostics; it
exists only if the solver ran out of work.
-/

namespace PointsTo

/-- What to analyse, and how far. -/
structure AnalysisConfig where
  /-- When not empty, stands in place of the entries of the program. -/
  entries : List (Option MethodId) := []
  limits : Limits := {}

/-- Why there is no result. -/
inductive AnalysisError
  | noProgram
  | invalid (violations : List Violation)
  | budget (steps : Nat)
  | cancelled
  | fault (f : Fault)
  deriving DecidableEq, Repr

/-- What is said about the lack of a result. -/
def AnalysisError.message : AnalysisError → String
  | noProgram => "malformed IR: no program"
  | invalid vs => "\n".intercalate (vs.map Violation.message)
  | budget n => "analysis budget exceeded: " ++ toString n ++ " work items processed"
  | cancelled => "context canceled"
  | fault f => f.message

/-- The result of an analysis. -/
structure Result where
  flow : FlowGraph Pointer
  /-- The allocations behind the objects, by number. -/
  heap : Array Site
  calls : CallGraph Stmt MethodId
  diagnostics : Array Diagnostic
  facts : Array (Nat × Nat)
  steps : Nat

namespace Result

/-- What the solver found. -/
def ofSolver (s : Solver) : Result :=
  ⟨s.flow, s.heap, s.calls, s.diagnostics, s.facts, s.steps⟩

/-- What a pointer points to. A pointer that the analysis has not met points to nothing. -/
def pointsTo (r : Result) (p : Pointer) : ObjSet :=
  match r.flow.find? p with
  | some i => r.flow.pts i
  | none => .empty

/-- The object of an allocation, if it is reachable. -/
def objectOf? (r : Result) (site : Site) : Option Nat := r.heap.findIdx? fun h => h = site

end Result

/-- A run of the analysis: the result or why there is none, and the state in which the solver
stopped, if it ran. -/
structure AnalysisRun where
  outcome : Except AnalysisError Result
  solver : Option Solver

namespace Program

/-- Analyses a program. -/
def analyze (p : Program) (c : AnalysisConfig) : AnalysisRun :=
  let p := { p with entries := if c.entries.isEmpty then p.entries else c.entries }
  let vs := p.violations
  if vs.isEmpty then
    let (stop, s) := p.solve (p.entries.filterMap fun m => m) c.limits
    let outcome := match stop with
      | .finished => .ok (.ofSolver s)
      | .budget n => .error (.budget n)
      | .cancelled => .error .cancelled
      | .fault f => .error (.fault f)
    ⟨outcome, some s⟩
  else ⟨.error (.invalid vs), none⟩

/-- The program after a run, whose answers to queries are remembered. -/
def afterRun (p : Program) (run : AnalysisRun) : Program :=
  match run.solver with
  | some s => { p with hierarchy := { p.hierarchy with memo := s.memo } }
  | none => p

end Program

end PointsTo
