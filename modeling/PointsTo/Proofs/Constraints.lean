import Mathlib.Data.Set.Basic
import PointsTo.Analysis
import PointsTo.Proofs.Memory

/-!
# The constraints of a program

A solution says which methods are reachable, what every place points to and which call runs which
methods. It is written without the numbers that a run of the solver gives to objects: an object is
its allocation.

1. `Solution.Obeys` is the constraint of one statement, and `Solution.Closed` says that the entries
   are reachable and that the constraints of all statements of reachable methods are obeyed.
2. `Solution.Demands` are the flow edges that the statements of reachable methods ask for. What a
   closed solution holds at the source of a demanded edge and lets pass, it holds at the target
   (`Solution.Closed.flow`).
3. `Result.solution` is the solution that a result of the analysis stands for.
-/

namespace PointsTo

/-- A place that holds references, with objects given by their allocations. -/
inductive Slot
  | var (v : Var)
  | field (o : Site) (f : Field)
  | static (f : Field)
  | elem (o : Site)
  deriving DecidableEq, Repr

/-- The place that a pointer stands for, if its object is in the heap. -/
def Pointer.slot? (heap : Array Site) : Pointer → Option Slot
  | var v => some (.var v)
  | field o f => (heap[o]?).map fun site => .field site f
  | static f => some (.static f)
  | elem o => (heap[o]?).map .elem

/-- Reachable methods, what every place points to, and which call runs which methods. -/
@[ext] structure Solution where
  reachable : Set MethodId
  pts : Slot → Set Site
  calls : Set (CallEdge Stmt MethodId)

theorem Stmt.of_instr?_call {s : Stmt} {c : Invocation} (h : s.instr? = some (.call c)) :
    c.stmt = s ∧ s.op = .call c.call ∧ allSome c.call.args = some c.args := by
  obtain ⟨id, op⟩ := s
  unfold Stmt.instr? at h
  split at h <;> simp at h
  · obtain ⟨args, hargs, rfl⟩ := h
    exact ⟨rfl, by assumption, hargs⟩

/-- A call with its operands in place is an invocation. -/
theorem Stmt.exists_instr?_eq_call {s : Stmt} {call : Call} {i : Instr} (hop : s.op = .call call)
    (hi : s.instr? = some i) : ∃ args, s.instr? = some (.call ⟨s, call, args⟩) := by
  unfold Stmt.instr? at hi ⊢
  rw [hop] at hi ⊢
  obtain ⟨args, hargs, -⟩ := Option.map_eq_some_iff.mp hi
  exact ⟨args, Option.map_eq_some_iff.mpr ⟨args, hargs, rfl⟩⟩

namespace Solution

/-- Everything that the first solution says, the second says too. -/
instance : LE Solution where
  le σ τ := σ.reachable ⊆ τ.reachable ∧ (∀ q, σ.pts q ⊆ τ.pts q) ∧ σ.calls ⊆ τ.calls

theorem le_antisymm {σ τ : Solution} (h : σ ≤ τ) (h' : τ ≤ σ) : σ = τ := by
  obtain ⟨hr, hp, hc⟩ := h
  obtain ⟨hr', hp', hc'⟩ := h'
  ext1
  · exact Set.Subset.antisymm hr hr'
  · funext q
    exact Set.Subset.antisymm (hp q) (hp' q)
  · exact Set.Subset.antisymm hc hc'

/-! ## Calls -/

variable (t : ClassTable) (σ : Solution)

/-- The call is made on a receiver: a static call on none, any other call on each object that its
receiver variable points to. -/
def MadeOn (c : Invocation) (recv : Option Site) : Prop :=
  if c.call.kind = .static then recv = none
  else ∃ v o, c.call.recv = some v ∧ o ∈ σ.pts (.var v) ∧ recv = some o

/-- What a call runs on a receiver. -/
def Runs (c : Invocation) (recv : Option Site) (callee : Method) : Prop :=
  ∃ m, c.call.resolve t (recv.map Site.type) = .ok (.ok m) ∧ t.method? m = some callee

/-- A call is connected with a method that it runs: there is an edge, the method is reachable, the
receiver is its receiver, arguments flow into parameters and returned values into the result. -/
structure Linked (c : Invocation) (recv : Option Site) (callee : Method) : Prop where
  edge : ⟨c.stmt, callee.id, c.call.kind.dispatched⟩ ∈ σ.calls
  reachable : callee.id ∈ σ.reachable
  receiver : ∀ o this, recv = some o → callee.receiver = some this → o ∈ σ.pts (.var this)
  arguments : ∀ p ∈ c.args.zip callee.formals, σ.pts (.var p.1) ⊆ σ.pts (.var p.2)
  result : ∀ x, c.call.result = some x → ∀ s ∈ callee.body, ∀ v, s.returned? = some v →
    σ.pts (.var v) ⊆ σ.pts (.var x)

/-! ## Statements -/

/-- The constraint of a statement. -/
def Obeys : Instr → Prop
  | .new site => site ∈ σ.pts (.var site.lhs)
  | .assign x y => Ty.pointerLike x.type → σ.pts (.var y) ⊆ σ.pts (.var x)
  | .cast x y type =>
    Ty.pointerLike x.type → ∀ o ∈ σ.pts (.var y), t.isSubtype o.type type → o ∈ σ.pts (.var x)
  | .load x b f => Ty.pointerLike f.type → ∀ o ∈ σ.pts (.var b), σ.pts (.field o f) ⊆ σ.pts (.var x)
  | .store b f y =>
    Ty.pointerLike f.type → ∀ o ∈ σ.pts (.var b), σ.pts (.var y) ⊆ σ.pts (.field o f)
  | .staticLoad x f => Ty.pointerLike f.type → σ.pts (.static f) ⊆ σ.pts (.var x)
  | .staticStore f y => Ty.pointerLike f.type → σ.pts (.var y) ⊆ σ.pts (.static f)
  | .arrayLoad x b => Ty.pointerLike x.type → ∀ o ∈ σ.pts (.var b), σ.pts (.elem o) ⊆ σ.pts (.var x)
  | .arrayStore b y =>
    Ty.pointerLike y.type → ∀ o ∈ σ.pts (.var b), σ.pts (.var y) ⊆ σ.pts (.elem o)
  | .call c => ∀ recv callee, σ.MadeOn c recv → Runs t c recv callee → σ.Linked c recv callee
  | .ret => True

/-- The entries are reachable, and every statement of a reachable method has its operands in place
and its constraint obeyed. -/
structure Closed (entries : List MethodId) : Prop where
  entry : ∀ m ∈ entries, m ∈ σ.reachable
  body : ∀ m ∈ σ.reachable, ∀ M, t.method? m = some M → ∀ s ∈ M.body,
    ∃ i, s.instr? = some i ∧ σ.Obeys t i

/-- The statement stands in a reachable method. -/
def Performs (i : Instr) : Prop := ∃ m ∈ σ.reachable, ∃ M, t.method? m = some M ∧ i ∈ M.instrs

variable {t σ}

/-- A call is made by the statement that it comes from. -/
theorem Performs.op_stmt {c : Invocation} (hi : σ.Performs t (.call c)) :
    c.stmt.op = .call c.call := by
  obtain ⟨m, hm, M, hM, hmem⟩ := hi
  obtain ⟨s, hs, hsi⟩ := List.mem_filterMap.mp hmem
  obtain ⟨rfl, hop, -⟩ := Stmt.of_instr?_call hsi
  exact hop

theorem Closed.obeys {entries : List MethodId} (h : σ.Closed t entries) {i : Instr}
    (hi : σ.Performs t i) : σ.Obeys t i := by
  obtain ⟨m, hm, M, hM, hmem⟩ := hi
  obtain ⟨s, hs, hsi⟩ := List.mem_filterMap.mp hmem
  obtain ⟨j, hj, hobeys⟩ := h.body m hm M hM s hs
  rw [hsi] at hj
  rwa [Option.some.inj hj]

/-! ## Demanded edges -/

variable (t σ)

/-- The edges that the statements of reachable methods ask for, with the kind and the type filter
that they ask for. An edge of a statement with a base or a receiver comes with an object that is
there. -/
inductive Demands : EdgeKind → Slot → Slot → Option Ty → Prop
  | assign {x y : Var} (hi : σ.Performs t (.assign x y)) (hx : Ty.pointerLike x.type) :
    Demands .localAssign (.var y) (.var x) none
  | cast {x y : Var} {type : Ty} (hi : σ.Performs t (.cast x y type)) (hx : Ty.pointerLike x.type) :
    Demands .cast (.var y) (.var x) (some type)
  | load {x b : Var} {f : Field} {o : Site} (hi : σ.Performs t (.load x b f))
    (hf : Ty.pointerLike f.type) (ho : o ∈ σ.pts (.var b)) :
    Demands .instanceLoad (.field o f) (.var x) none
  | store {b y : Var} {f : Field} {o : Site} (hi : σ.Performs t (.store b f y))
    (hf : Ty.pointerLike f.type) (ho : o ∈ σ.pts (.var b)) :
    Demands .instanceStore (.var y) (.field o f) none
  | staticLoad {x : Var} {f : Field} (hi : σ.Performs t (.staticLoad x f))
    (hf : Ty.pointerLike f.type) :
    Demands .staticLoad (.static f) (.var x) none
  | staticStore {y : Var} {f : Field} (hi : σ.Performs t (.staticStore f y))
    (hf : Ty.pointerLike f.type) : Demands .staticStore (.var y) (.static f) none
  | arrayLoad {x b : Var} {o : Site} (hi : σ.Performs t (.arrayLoad x b))
    (hx : Ty.pointerLike x.type)
    (ho : o ∈ σ.pts (.var b)) : Demands .arrayLoad (.elem o) (.var x) none
  | arrayStore {b y : Var} {o : Site} (hi : σ.Performs t (.arrayStore b y))
    (hy : Ty.pointerLike y.type)
    (ho : o ∈ σ.pts (.var b)) : Demands .arrayStore (.var y) (.elem o) none
  | argument {c : Invocation} {recv : Option Site} {callee : Method} {p : Var × Var}
    (hi : σ.Performs t (.call c)) (hrecv : σ.MadeOn c recv) (hrun : Runs t c recv callee)
    (hp : p ∈ c.args.zip callee.formals) : Demands .parameterPassing (.var p.1) (.var p.2) none
  | result {c : Invocation} {recv : Option Site} {callee : Method} {x v : Var} {s : Stmt}
    (hi : σ.Performs t (.call c)) (hrecv : σ.MadeOn c recv) (hrun : Runs t c recv callee)
    (hx : c.call.result = some x) (hs : s ∈ callee.body) (hv : s.returned? = some v) :
    Demands .ret (.var v) (.var x) none

variable {t σ}

/-- A closed solution lets objects flow along the edges that it demands. -/
theorem Closed.flow {entries : List MethodId} (h : σ.Closed t entries) {kind : EdgeKind}
    {a b : Slot}
    {filter : Option Ty} (hd : σ.Demands t kind a b filter) {o : Site} (ho : o ∈ σ.pts a)
    (hpass : ∀ type, filter = some type → t.isSubtype o.type type = true) : o ∈ σ.pts b := by
  cases hd with
  | assign hi hx => exact h.obeys hi hx ho
  | cast hi hx => exact h.obeys hi hx o ho (hpass _ rfl)
  | load hi hf hb => exact h.obeys hi hf _ hb ho
  | store hi hf hb => exact h.obeys hi hf _ hb ho
  | staticLoad hi hf => exact h.obeys hi hf ho
  | staticStore hi hf => exact h.obeys hi hf ho
  | arrayLoad hi hx hb => exact h.obeys hi hx _ hb ho
  | arrayStore hi hy hb => exact h.obeys hi hy _ hb ho
  | argument hi hrecv hrun hp => exact (h.obeys hi _ _ hrecv hrun).arguments _ hp ho
  | result hi hrecv hrun hx hs hv => exact (h.obeys hi _ _ hrecv hrun).result _ hx _ hs _ hv ho

/-- Only casts ask for a type filter, and they always do. -/
theorem Demands.filter_iff {kind : EdgeKind} {a b : Slot} {filter : Option Ty}
    (hd : σ.Demands t kind a b filter) : filter.isSome ↔ kind = .cast := by
  cases hd <;> simp

end Solution

/-- The solution that a result stands for. -/
def Result.solution (r : Result) : Solution where
  reachable := { m | r.calls.isReachable m }
  pts q := { site | ∃ p o, p.slot? r.heap = some q ∧ r.heap[o]? = some site ∧ o ∈ r.pointsTo p }
  calls := { e | e ∈ r.calls.edges }

end PointsTo
