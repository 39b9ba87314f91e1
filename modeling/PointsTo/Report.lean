import PointsTo.Golden

/-!
# Results in words

How call sites, call edges and results are written, and the order in which they are listed: methods
by signature, call sites by the method around them and then by their text.
-/

namespace PointsTo

namespace Stmt

/-- A call site with the method around it. -/
def located (s : Stmt) : String := s.parent.signature ++ ": " ++ Fault.shown s.text?

/-- Where a call site stands in a listing. -/
def siteKey (s : Stmt) : CallGraph.SiteKey := ⟨s.parent.signature, Fault.shown s.text?⟩

end Stmt

/-- `<parent>: call -[kind]-> <callee>`. -/
def CallEdge.text (e : CallEdge Stmt MethodId) : String :=
  e.site.located ++ " -[" ++ e.kind.text ++ "]-> " ++ e.callee.signature

namespace Result

/-- The reachable methods in order. -/
def reachable (r : Result) : List MethodId := r.calls.sortedReachable MethodId.signature

/-- The call edges in order. -/
def callEdges (r : Result) : List (CallEdge Stmt MethodId) :=
  r.calls.sortedEdges Stmt.siteKey MethodId.signature

/-- The call sites that may run a method, in order. -/
def callers (r : Result) (m : MethodId) : List Stmt := r.calls.sortedCallers Stmt.siteKey m

/-- The calls of a method that have callees, with the callees in order. -/
def calleesOf (r : Result) (m : Method) : List (Stmt × List MethodId) :=
  (m.calls.map fun s => (s, r.calls.sortedCallees MethodId.signature s)).filter
    fun c => !c.2.isEmpty

/-- The texts of the objects of a set, by number. -/
def objectTexts (r : Result) (s : ObjSet) : List String := s.ids.map (objectText r.heap)

end Result

end PointsTo
