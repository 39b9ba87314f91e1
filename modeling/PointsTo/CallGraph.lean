import PointsTo.Index
import PointsTo.Stmt
import PointsTo.Text.Sorted

/-!
# Call graphs

A call graph over call sites `σ` and methods `μ` holds the entry methods, the methods known to be
reachable, and edges from call sites to the methods they may run. An edge is there at most once for
each site and callee, with the kind it was first added with. The graph only ever grows.

Besides the list of edges there are two indexes: the callees of each site, with the kinds of the
edges, and the sites of each callee. An edge goes into all three when it is added.
-/

namespace PointsTo

/-- An edge from a call site to a method that it may run. -/
structure CallEdge (σ μ : Type) where
  site : σ
  callee : μ
  kind : CallKind
  deriving DecidableEq, Repr

/-- A call graph. -/
structure CallGraph (σ μ : Type) where
  entries : List μ := []
  reachable : List μ := []
  edges : List (CallEdge σ μ) := []
  /-- The callees of each site, with the kinds of the edges. -/
  targets : Index σ (μ × CallKind) := {}
  /-- The sites that may run each method. -/
  sites : Index μ σ := {}

namespace CallGraph

variable {σ μ : Type} [DecidableEq σ] [DecidableEq μ]

/-- Marks a method as reachable, and says whether it was not before. -/
def addReachable (g : CallGraph σ μ) (m : μ) : Bool × CallGraph σ μ :=
  if m ∈ g.reachable then (false, g) else (true, { g with reachable := g.reachable ++ [m] })

/-- Adds an entry method, and says whether it was not reachable before. -/
def addEntry (g : CallGraph σ μ) (m : μ) : Bool × CallGraph σ μ :=
  { g with entries := g.entries ++ [m] }.addReachable m

/-- The kind of the edge from a site to a method, if there is one. -/
def edgeKind? (g : CallGraph σ μ) (s : σ) (m : μ) : Option CallKind := (g.targets.get s).lookup m

/-- Adds an edge, and says whether it was new. -/
def addEdge (g : CallGraph σ μ) (s : σ) (m : μ) (kind : CallKind) : Bool × CallGraph σ μ :=
  if (g.edgeKind? s m).isSome then (false, g)
  else
    let g := { g with targets := g.targets.add s (m, kind) }
    let g := { g with sites := if s ∈ g.sites.get m then g.sites else g.sites.add m s }
    (true, { g with edges := g.edges ++ [⟨s, m, kind⟩] })

/-- Whether a method is reachable. -/
def isReachable (g : CallGraph σ μ) (m : μ) : Bool := m ∈ g.reachable

/-- The number of edges. -/
def numEdges (g : CallGraph σ μ) : Nat := g.edges.length

/-- The methods that a site may run, in the order in which they were found. -/
def callees (g : CallGraph σ μ) (s : σ) : List μ := (g.targets.get s).map Prod.fst

/-- The sites that may run a method, in the order in which they were found. -/
def callers (g : CallGraph σ μ) (m : μ) : List σ := g.sites.get m

omit [DecidableEq σ] [DecidableEq μ] in
/-- Puts others in the place of methods. Different methods must stay different. -/
def mapMethods {ν : Type} (f : μ → ν) (g : CallGraph σ μ) : CallGraph σ ν where
  entries := g.entries.map f
  reachable := g.reachable.map f
  edges := g.edges.map fun e => ⟨e.site, f e.callee, e.kind⟩
  targets := g.targets.map id fun m => (f m.1, m.2)
  sites := g.sites.map f id

/-! ## Ordered views -/

/-- Where a call site stands in an ordered listing: by the method around it, then by its text. -/
structure SiteKey where
  parent : String
  text : String
  deriving DecidableEq, Repr

/-- The order of call sites. -/
def SiteKey.lt (a b : SiteKey) : Bool :=
  if a.parent = b.parent then decide (a.text < b.text) else decide (a.parent < b.parent)

/-- Call sites in order. -/
def sortSites (key : σ → SiteKey) (ss : List σ) : List σ :=
  (Text.sortWith (fun a b => !b.1.lt a.1) (ss.map fun s => (key s, s))).map Prod.snd

/-- Whether an edge comes before another: edges of one site by callee, others by site. -/
def edgeLt (key : σ → SiteKey) (signature : μ → String) (a b : CallEdge σ μ) : Bool :=
  if a.site = b.site then decide (signature a.callee < signature b.callee)
  else (key a.site).lt (key b.site)

/-- The edges ordered by call site and callee. -/
def sortedEdges (key : σ → SiteKey) (signature : μ → String) (g : CallGraph σ μ) :
    List (CallEdge σ μ) :=
  Text.sortWith (fun a b => !edgeLt key signature b a) g.edges

/-- The callees of a site ordered by signature. -/
def sortedCallees (signature : μ → String) (g : CallGraph σ μ) (s : σ) : List μ :=
  Text.sortBy signature (g.callees s)

/-- The callers of a method in order. -/
def sortedCallers (key : σ → SiteKey) (g : CallGraph σ μ) (m : μ) : List σ :=
  sortSites key (g.callers m)

/-- The reachable methods ordered by signature. -/
def sortedReachable (signature : μ → String) (g : CallGraph σ μ) : List μ :=
  Text.sortBy signature g.reachable

end CallGraph

end PointsTo
