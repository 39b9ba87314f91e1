import PointsTo.Solver.State

/-!
# One step of the solver

A step takes the oldest piece of work. Objects that are new at a pointer join what it points to,
flow on along its edges, and are met by the statements that wait at a variable. A method that has
become reachable has its statements performed: allocations put objects to work, copies add edges,
and statements with a base variable or a receiver wait there and are performed for the objects that
are there already.

Once a fault has occurred nothing more is performed.
-/

namespace PointsTo

namespace Instr

/-- The variable whose objects the statement waits for. -/
def base? : Instr → Option Var
  | load _ b _ => some b
  | store b _ _ => some b
  | arrayLoad _ b => some b
  | arrayStore b _ => some b
  | call c => c.call.recv
  | _ => none

/-- Of the statements that wait at one variable, those of lower rank are performed first. -/
def rank : Instr → Nat
  | load .. => 0
  | store .. => 1
  | arrayLoad .. => 2
  | arrayStore .. => 3
  | _ => 4

end Instr

namespace Solver

variable (t : ClassTable)

/-! ## Flow -/

/-- The objects of a list whose type is a subtype of a given one. -/
def keepSubtypes (type : Ty) : List Nat → Solver → List Nat × Solver
  | [], s => ([], s)
  | o :: os, s =>
    let (keep, s) := match s.typeOf? o with
      | some u => s.ask (Memo.isSubtype t u type)
      | none => (false, s)
    let (rest, s) := keepSubtypes type os s
    (if keep then o :: rest else rest, s)

/-- Sends the objects that pass a filter to a pointer, if there are any. -/
def send (s : Solver) (target : Nat) (objects : ObjSet) (filter : Option Ty) : Solver :=
  let (objects, s) := match filter with
    | none => (objects, s)
    | some type =>
      let (ids, s) := keepSubtypes t type objects.ids s
      (⟨ids⟩, s)
  if objects.isEmpty then s else s.enqueue target objects

/-- Adds an edge. What its source points to already flows along a new edge. -/
def addEdge (s : Solver) (kind : EdgeKind) (source target : Nat) (filter : Option Ty) : Solver :=
  let (fresh, flow) := s.flow.addEdge kind source target filter
  if fresh then
    let s := { s with flow }.tell (.flowEdge kind source target)
    let pts := s.flow.pts source
    if pts.isEmpty then s else s.send t target pts filter
  else s

/-- Adds an edge between two pointers, which are added in this order if they are not there. -/
def connect (s : Solver) (kind : EdgeKind) (source target : Pointer) (filter : Option Ty := none) :
    Solver :=
  let (i, s) := s.pointer source
  let (j, s) := s.pointer target
  s.addEdge t kind i j filter

/-! ## Calls -/

/-- Notes that a call could not be resolved. It is told once for each type of receivers. -/
def unresolved (s : Solver) (site : Stmt) (recv : Option Nat) (e : ResolutionError) : Solver :=
  let type := recv.bind s.typeOf?
  let told := s.diagnostics.any fun d => d.site = site ∧ d.object.bind s.typeOf? = type
  let s := { s with diagnostics := s.diagnostics.push ⟨site, recv, e⟩ }
  if told then s else s.tell (.unresolved site e)

/-- Lets arguments flow into parameters. -/
def passArguments (args formals : List Var) (s : Solver) : Solver :=
  (args.zip formals).foldl (fun s p => s.connect t .parameterPassing (.var p.1) (.var p.2)) s

/-- Lets returned values flow into the result of a call. -/
def passResult (result : Option Var) (returned : List Var) (s : Solver) : Solver :=
  match result with
  | none => s
  | some r =>
    let (i, s) := s.pointer (.var r)
    returned.foldl
      (fun s v =>
        let (j, s) := s.pointer (.var v)
        s.addEdge t .ret j i none)
      s

/-- Connects a call with a method that it runs. -/
def link (s : Solver) (c : Invocation) (recv : Option Nat) (callee : Method) : Solver :=
  let (fresh, calls) := s.calls.addEdge c.stmt callee.id c.call.kind.dispatched
  let s := { s with calls }
  let s := if fresh then (s.tell (.callEdge c.stmt callee.id)).addReachable callee.id else s
  let s := match recv, callee.receiver with
    | some o, some this =>
      let (i, s) := s.pointer (.var this)
      s.enqueue i (.singleton o)
    | _, _ => s
  if c.args.length ≠ callee.formals.length then
    s.fail (.argumentCount c.stmt.parent (Fault.shown c.call.text?) c.args.length callee.id)
  else passResult t c.call.result callee.returned (passArguments t c.args callee.formals s)

/-- Finds the target of a call for a receiver object, and connects the call with it. -/
def dispatch (s : Solver) (c : Invocation) (recv : Option Nat) : Solver :=
  let (target, s) := s.ask (c.call.target t (recv.bind s.typeOf?))
  match target with
  | .error f => s.fail f
  | .ok (.error e) => s.unresolved c.stmt recv e
  | .ok (.ok m) =>
    match t.method? m with
    | some callee => s.link t c recv callee
    | none => s.fail .absent

/-! ## Statements -/

/-- Performs a statement for an object that reached its base. -/
def fire (s : Solver) (o : Nat) (i : Instr) : Solver :=
  if s.fault.isSome then s
  else
    match i with
    | .load x _ f => s.connect t .instanceLoad (.field o f) (.var x)
    | .store _ f y => s.connect t .instanceStore (.var y) (.field o f)
    | .arrayLoad x _ => s.connect t .arrayLoad (.elem o) (.var x)
    | .arrayStore _ y => s.connect t .arrayStore (.var y) (.elem o)
    | .call c => s.dispatch t c (some o)
    | _ => s

/-- Lets a statement wait at a variable, and performs it for the objects that are there already. -/
def register (s : Solver) (base : Var) (i : Instr) : Solver :=
  let (p, s) := s.pointer (.var base)
  let s := { s with waiting := s.waiting ++ [i] }
  (s.flow.pts p).ids.foldl (fun s o => s.fire t o i) s

/-- Performs a statement of a method that has become reachable. Values that cannot be references do
not flow. -/
def perform (s : Solver) (i : Instr) : Solver :=
  if s.fault.isSome then s
  else
    match i with
    | .new site =>
      let (p, s) := s.pointer (.var site.lhs)
      let (o, s) := s.object site
      s.enqueue p (.singleton o)
    | .assign x y =>
      if Ty.pointerLike x.type then s.connect t .localAssign (.var y) (.var x) else s
    | .cast x y type =>
      if Ty.pointerLike x.type then s.connect t .cast (.var y) (.var x) (some type) else s
    | .staticLoad x f =>
      if Ty.pointerLike f.type then s.connect t .staticLoad (.static f) (.var x) else s
    | .staticStore f y =>
      if Ty.pointerLike f.type then s.connect t .staticStore (.var y) (.static f) else s
    | .load _ b f => if Ty.pointerLike f.type then s.register t b i else s
    | .store b f _ => if Ty.pointerLike f.type then s.register t b i else s
    | .arrayLoad x b => if Ty.pointerLike x.type then s.register t b i else s
    | .arrayStore b y => if Ty.pointerLike y.type then s.register t b i else s
    | .call c =>
      if c.call.kind = .static then s.dispatch t c none
      else
        match c.call.recv with
        | some v => s.register t v i
        | none => s.fail .absent
    | .ret => s

/-! ## Work -/

/-- The statements that wait at a variable, in the order in which they are performed. -/
def waitingAt (s : Solver) (v : Var) : List Instr :=
  (List.range 5).flatMap fun r => s.waiting.filter fun i => i.base? = some v ∧ i.rank = r

/-- Objects arrive at a pointer. -/
def propagate (s : Solver) (p : Nat) (objects : ObjSet) : Solver :=
  let fresh := objects.diff (s.flow.pts p)
  if fresh.isEmpty then s
  else
    let s := { s with
      flow := s.flow.addPts p fresh
      facts := fresh.ids.foldl (fun fs o => fs.push (p, o)) s.facts }
    let s := (s.flow.out p).foldl (fun s e => s.send t e.target fresh e.filter) s
    match s.flow.key? p with
    | some (.var v) =>
      fresh.ids.foldl (fun s o => (s.waitingAt v).foldl (fun s i => s.fire t o i) s) s
    | _ => s

/-- A method has become reachable. -/
def enter (s : Solver) (m : MethodId) : Solver :=
  let s := s.tell (.reachable m)
  match t.method? m with
  | some m => m.instrs.foldl (fun s i => s.perform t i) s
  | none => s

/-- Does a piece of work. -/
def process (s : Solver) : Work → Solver
  | .delta p objects => s.propagate t p objects
  | .method m => s.enter t m

/-- Takes the oldest piece of work and does it; nothing happens if there is none. -/
def step (s : Solver) : Solver :=
  match s.queue.pop? with
  | none => s
  | some (w, queue) => { s with queue, steps := s.steps + 1 }.process t w

end Solver

end PointsTo
