import PointsTo.Workbench.Construction

/-!
# Analysing and exploring

Operations that run the analysis, ask its last result, draw call graphs and flow graphs by hand, and
compare call graphs with golden files.
-/

namespace PointsTo.Workbench

/-! ## The analysis and its result -/

/-- Runs the analysis. Only a result is kept. -/
def analyze (entries : List MethodId) (limits : Limits) : Action Result := do
  let w ← get
  let run := w.program.analyze { entries := entries.map some, limits }
  let program := w.program.afterRun run
  match run.outcome with
  | .ok r =>
    set { w with program, result := some r, runs := w.runs + 1 }
    return r
  | .error e =>
    set { w with program }
    throw (.analysis e)

/-- The last result. -/
def lastResult : Action Result := do need (← get).result

/-- What a place points to in the last result. -/
def pointsTo (p : Place) : Action ObjSet := do
  let r ← lastResult
  return ((p.pointerIn? (← get).runs).map r.pointsTo).getD .empty

/-- What the pointer of a number points to in the last result. -/
def pointsToAt (i : Nat) : Action ObjSet := return (← lastResult).flow.pts i

/-- Whether an object is in a set. -/
def hasObject (s : ObjSet) (o : Option Obj) : Bool := o.any fun o => o.id ∈ s

/-- The object of an allocation in the last result, if it has one. -/
def objectOf (s : Stmt) : Action (Option Obj) := do
  let r ← lastResult
  let run := (← get).runs
  return do
    let site ← s.site?
    let o ← r.objectOf? site
    return .found run o site

/-- Makes an object by hand, and answers its text. -/
def makeObject (s : Stmt) : Action String := do
  let w ← get
  set { w with objects := w.objects.push s }
  return (Obj.made w.objects.size s).text

/-- The object made by hand that has a given position. -/
def madeObject (i : Nat) : Action Obj := do return .made i (← need ((← get).objects[i]?))

/-- The target of a call for a receiver, or the error that there is none. -/
def target (s : Stmt) (recv : Option Obj) : Action MethodId := do
  let c ← need s.call?
  let virtual := c.kind = .virtual ∨ c.kind = .interface
  let type ← match recv with
    | some o => if virtual then some <$> need o.type else pure o.type
    | none => pure none
  askTarget fun t => c.target t type

/-! ## Call graphs -/

/-- The call graph drawn by hand, or that of the last result. -/
def callGraph (manual : Bool) : Action (CallGraph Stmt (Option MethodId)) := do
  if manual then return (← get).calls
  return (← lastResult).calls.mapMethods some

/-- Adds an entry to the call graph drawn by hand. -/
def drawEntry (m : Option MethodId) : Action Bool := do
  let w ← get
  let (fresh, calls) := w.calls.addEntry m
  set { w with calls }
  return fresh

/-- Marks a method as reachable in the call graph drawn by hand. -/
def drawReachable (m : Option MethodId) : Action Bool := do
  let w ← get
  let (fresh, calls) := w.calls.addReachable m
  set { w with calls }
  return fresh

/-- Adds an edge to the call graph drawn by hand. -/
def drawCall (s : Stmt) (m : Option MethodId) (kind : CallKind) : Action Bool := do
  let w ← get
  let (fresh, calls) := w.calls.addEdge s m kind
  set { w with calls }
  return fresh

/-- The signatures of methods, all of which must be there. -/
def signatures (ms : List (Option MethodId)) : Action (List String) := orFail (Golden.signatures ms)

/-- The signatures of methods in order. -/
def sortedSignatures (ms : List (Option MethodId)) : Action (List String) :=
  return Text.sortTexts (← signatures ms)

/-- Whether an edge comes before another. Edges of one site are told apart by their callees, which
must be there. -/
def edgeBefore (a b : CallEdge Stmt (Option MethodId)) : Except Fault Bool :=
  if a.site = b.site then
    match a.callee, b.callee with
    | some m, some n => .ok (m.signature < n.signature)
    | _, _ => .error .absent
  else .ok (a.site.siteKey.lt b.site.siteKey)

/-- Puts an edge into a list of edges, of which the last comes first. -/
def insertEdge (e : CallEdge Stmt (Option MethodId)) :
    List (CallEdge Stmt (Option MethodId)) → Except Fault (List (CallEdge Stmt (Option MethodId)))
  | [] => .ok [e]
  | x :: xs => do
    if ← edgeBefore e x then return x :: (← insertEdge e xs)
    return e :: x :: xs

/-- The edges of a call graph in order, in words. An absent callee can be written, but not
compared. -/
def edgeTexts (g : CallGraph Stmt (Option MethodId)) : Action (List String) := do
  let edges ← orFail (g.edges.foldlM (fun done e => insertEdge e done) [])
  edges.reverse.mapM fun e => do
    discard (stmtText e.site)
    return e.site.located ++ " -[" ++ e.kind.text ++ "]-> " ++
      (e.callee.map MethodId.signature).getD "<nil>"

/-- The call sites that may run a method, in order and in words. -/
def callerTexts (g : CallGraph Stmt (Option MethodId)) (m : Option MethodId) :
    Action (List String) := do
  let sites := g.sortedCallers Stmt.siteKey m
  for s in sites do discard (stmtText s)
  return sites.map Stmt.located

/-- The calls of a method that have callees, with the callees in order, in words. -/
def calleeTexts (g : CallGraph Stmt (Option MethodId)) (m : Option MethodId) :
    Action (List (String × List String)) := do
  let m ← method m
  (m.calls.filter fun s => !(g.callees s).isEmpty).mapM fun s => do
    return (← stmtText s, ← sortedSignatures (g.callees s))

/-! ## Flow graphs -/

/-- The node of a place in the flow graph drawn by hand, with the text of the place. -/
def drawPlace (p : Place) : Action (Nat × String) := do
  let w ← get
  let (i, flow) := w.flow.intern p
  set { w with flow, handles := w.handles.push i }
  return (i, ← orFail p.text)

/-- The node behind a handle. -/
def nodeAt (handle : Nat) : Action Nat := do need ((← get).handles[handle]?)

/-- Adds an edge to the flow graph drawn by hand. -/
def drawFlow (kind : EdgeKind) (source target : Nat) (filter : Option Ty) : Action Bool := do
  let i ← nodeAt source
  let j ← nodeAt target
  let w ← get
  let (fresh, flow) := w.flow.addEdge kind i j filter
  set { w with flow }
  return fresh

/-- An edge of the flow graph drawn by hand, in words. -/
def flowEdgeText (g : FlowGraph Place) (source : Nat) (e : FlowEdge) : String :=
  let shown (i : Nat) : String := ((g.key? i).map Place.shown).getD "<nil>"
  let arrow := match e.filter with
    | some type => " -(" ++ type.name ++ ")-> "
    | none => " -> "
  "[" ++ e.kind.shown ++ "]" ++ shown source ++ arrow ++ shown e.target

/-- The edges that leave the node behind a handle, in words. -/
def flowTexts (handle : Nat) : Action (List String) := do
  let i ← nodeAt handle
  let g := (← get).flow
  return (g.out i).map (flowEdgeText g i)

/-- The places of the flow graph drawn by hand, in words. -/
def placeTexts : Action (List String) := do (← get).flow.keys.mapM fun p => orFail p.text

/-! ## Golden files -/

/-- Lays a golden file on the workbench. -/
def expect (text : String) : Action Unit :=
  match Golden.parse text with
  | .ok expectations => modify fun w => { w with checker := some { expectations } }
  | .error e => throw (.golden e)

/-- Compares methods with the golden file, and answers all differences found so far. -/
def compare (manual : Bool) (m : Option MethodId) : Action (List String) := do
  let c ← need (← get).checker
  let g ← callGraph manual
  let methods ← match m with
    | some _ => pure [← method m]
    | none => pure (← get).program.methods
  let (fault, c) := c.compareAll g.callees methods
  modify fun w => { w with checker := some c }
  match fault with
  | some f => fail f
  | none => return c.mismatches

/-- Writes the golden file of a call graph. -/
def dump (manual : Bool) : Action String := do
  let g ← callGraph manual
  orFail (Golden.dump (← get).program g.callees)

/-- Callees as they stand in a golden file. -/
def formatCallees (ms : List (Option MethodId)) : Action String := orFail (Golden.formatCallees ms)

end PointsTo.Workbench
