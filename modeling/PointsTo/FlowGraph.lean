import PointsTo.Fault
import PointsTo.ObjSet

/-!
# Flow graphs

The nodes of a flow graph are pointers: places that hold references. Every node has a key, and there
is one node for each key; nodes are numbered in the order in which they were first asked for. An
edge says that what its source points to flows into its target, restricted to a type if the edge
carries one. The graph only ever grows, and an edge is there at most once: the graph knows all its
edges, and each node those that leave it.
-/

namespace PointsTo

/-- Why values flow along an edge. A kind given by a number that is none of the named ones is kept
as `other`. -/
inductive EdgeKind
  | localAssign | cast | instanceLoad | instanceStore | staticLoad | staticStore
  | arrayLoad | arrayStore | parameterPassing | ret
  | other (code : Int)
  deriving DecidableEq, Repr

namespace EdgeKind

/-- The named kinds in the order of their numbers. -/
def named : List EdgeKind :=
  [localAssign, cast, instanceLoad, instanceStore, staticLoad, staticStore, arrayLoad, arrayStore,
    parameterPassing, ret]

/-- The kind with a given number. -/
def ofCode (n : Int) : EdgeKind := if n < 0 then other n else (named[n.toNat]?).getD (other n)

/-- The name of a kind. A number below all kinds has none. -/
def name : EdgeKind → Except Fault String
  | localAssign => .ok "LOCAL_ASSIGN"
  | cast => .ok "CAST"
  | instanceLoad => .ok "INSTANCE_LOAD"
  | instanceStore => .ok "INSTANCE_STORE"
  | staticLoad => .ok "STATIC_LOAD"
  | staticStore => .ok "STATIC_STORE"
  | arrayLoad => .ok "ARRAY_LOAD"
  | arrayStore => .ok "ARRAY_STORE"
  | parameterPassing => .ok "PARAMETER_PASSING"
  | ret => .ok "RETURN"
  | other n => if n < 0 then .error (.edgeKindCode n) else .ok ("EdgeKind(" ++ toString n ++ ")")

/-- The name of a kind as it stands in messages. -/
def shown (k : EdgeKind) : String :=
  match k.name with
  | .ok s => s
  | .error f => f.placeholder "v"

end EdgeKind

/-- An edge, seen from its source. -/
structure FlowEdge where
  kind : EdgeKind
  target : Nat
  /-- When given, only objects of a subtype flow. -/
  filter : Option Ty
  deriving DecidableEq, Repr

/-- A node with what it points to and its outgoing edges, oldest first. -/
structure FlowNode (κ : Type) where
  key : κ
  pts : ObjSet := {}
  out : List FlowEdge := []

/-- A flow graph over keys of type `κ`. -/
structure FlowGraph (κ : Type) where
  nodes : Array (FlowNode κ) := #[]
  /-- The edges with their sources, oldest first. -/
  edges : List (Nat × FlowEdge) := []

namespace FlowGraph

variable {κ : Type}

/-- The graph without nodes. -/
def empty : FlowGraph κ := {}

/-- The number of nodes. -/
def size (g : FlowGraph κ) : Nat := g.nodes.size

/-- The keys of the nodes in the order of their numbers. -/
def keys (g : FlowGraph κ) : List κ := g.nodes.toList.map FlowNode.key

/-- The key of a node. -/
def key? (g : FlowGraph κ) (i : Nat) : Option κ := (g.nodes[i]?).map FlowNode.key

/-- What a node points to. -/
def pts (g : FlowGraph κ) (i : Nat) : ObjSet := ((g.nodes[i]?).map FlowNode.pts).getD {}

/-- The edges that leave a node, oldest first. -/
def out (g : FlowGraph κ) (i : Nat) : List FlowEdge := ((g.nodes[i]?).map FlowNode.out).getD []

/-- The number of edges. -/
def numEdges (g : FlowGraph κ) : Nat := g.edges.length

/-- The node of a key, if there is one. -/
def find? [DecidableEq κ] (g : FlowGraph κ) (k : κ) : Option Nat :=
  g.nodes.findIdx? fun n => n.key = k

/-- The node of a key, which is added if there is none. -/
def intern [DecidableEq κ] (g : FlowGraph κ) (k : κ) : Nat × FlowGraph κ :=
  match g.find? k with
  | some i => (i, g)
  | none => (g.size, { g with nodes := g.nodes.push { key := k } })

/-- Adds an edge, and says whether it was new. -/
def addEdge (g : FlowGraph κ) (kind : EdgeKind) (source target : Nat) (filter : Option Ty) :
    Bool × FlowGraph κ :=
  let e : FlowEdge := ⟨kind, target, filter⟩
  if (source, e) ∈ g.edges then (false, g)
  else
    let g := { g with edges := g.edges ++ [(source, e)] }
    (true, { g with nodes := g.nodes.modify source fun n => { n with out := n.out ++ [e] } })

/-- Adds objects to what a node points to. -/
def addPts (g : FlowGraph κ) (i : Nat) (s : ObjSet) : FlowGraph κ :=
  { g with nodes := g.nodes.modify i fun n => { n with pts := n.pts.union s } }

end FlowGraph

end PointsTo
