import PointsTo.Program
import PointsTo.Solver.Step

/-!
# Running the solver

The solver steps until there is no work left. It may be given a limit on the number of steps, and it
may be cancelled: cancellation takes effect when a certain number of facts has been found, and is
looked for before the first step and then once every 1024 steps. The limit comes first.

How many steps a program can take is bounded in advance (`stepBound`). A run that went on after so
many would never end, which is a fault of its own; there is no such run.
-/

namespace PointsTo

/-- What may stop a run before there is no work left. -/
structure Limits where
  /-- The largest number of steps; if it is not positive there is no limit. -/
  maxSteps : Int := 0
  /-- The number of facts at which the run is cancelled, if it is. -/
  cancelAt : Option Nat := none
  deriving DecidableEq, Repr

/-- Why a run stopped. -/
inductive Stop
  | finished
  | budget (steps : Nat)
  | cancelled
  | fault (f : Fault)
  deriving DecidableEq, Repr

namespace Limits

/-- Whether cancellation has taken effect. -/
def isCancelled (l : Limits) (s : Solver) : Bool :=
  match l.cancelAt with
  | some n => n ≤ s.facts.size
  | none => false

/-- What stops the run before its next step. -/
def stop? (l : Limits) (s : Solver) : Option Stop :=
  match s.fault with
  | some f => some (.fault f)
  | none =>
    if s.queue.isEmpty then some .finished
    else if 0 < l.maxSteps ∧ l.maxSteps ≤ s.steps then some (.budget s.steps)
    else if s.steps % 1024 = 0 ∧ l.isCancelled s then some .cancelled
    else none

end Limits

namespace Solver

/-- Steps until something stops the run, at most `n` times. -/
def runUpTo (t : ClassTable) (l : Limits) : Nat → Solver → Stop × Solver
  | 0, s => (.fault .endlessRun, s)
  | n + 1, s =>
    match l.stop? s with
    | some why => (why, s)
    | none => runUpTo t l n (s.step t)

/-- The state before the first step. -/
def start (memo : Memo) (entries : List MethodId) : Solver :=
  entries.foldl addEntry { memo }

end Solver

/-- How many edges and arrivals a statement causes at most when it is performed once, if the methods
have so many returned variables in all. -/
def Instr.weight (returned : Nat) : Instr → Nat
  | .call c => 1 + c.args.length + returned
  | _ => 1

namespace Program

/-- The statements of all methods that have their operands in place. -/
def instrs (p : Program) : List Instr := p.table.methods.flatMap Method.instrs

/-- The number of allocations. -/
def allocations (p : Program) : Nat :=
  (p.instrs.filter fun i => match i with
    | .new _ => true
    | _ => false).length

/-- The number of returned variables of all methods. -/
def returned (p : Program) : Nat := (p.table.methods.flatMap Method.returned).length

/-- How many edges performing each statement once can add at most. -/
def edgeWeight (p : Program) : Nat :=
  let returned := p.returned
  p.instrs.foldr (fun i k => i.weight returned + k) 0

/-- A number of steps that is never exceeded. A statement is performed at most once for each object
and once without one; a piece of work is a method, comes with a performed statement, or is a flow
along an edge, and an edge is used at most once for each object and once when it is added. A method
counts twice, for the identity under which it is found and for the one that it says it has. -/
def stepBound (p : Program) : Nat :=
  let rounds := p.allocations + 1
  let edges := rounds * p.edgeWeight
  2 * p.table.methods.length + edges + rounds * edges + 2

/-- Runs the solver from some entry methods. -/
def solve (p : Program) (entries : List MethodId) (l : Limits) : Stop × Solver :=
  let s := Solver.start p.hierarchy.memo entries
  if l.isCancelled s then (.cancelled, s) else s.runUpTo p.table l p.stepBound

end Program

end PointsTo
