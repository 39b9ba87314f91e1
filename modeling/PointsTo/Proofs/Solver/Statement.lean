import PointsTo.Proofs.Solver.Effect

/-!
# Statements as lists of effects

`Instr.effectsOn` are the effects of a statement for an object that reached its base, and
`Instr.effects` those when its method becomes reachable. Calls are the longest case:
`Invocation.HasEffect` says what may be among the effects of a call, and when.

`link_eq`, `dispatch_eq` and `fire_eq` say that the solver does with a statement what its effects
say.
-/

namespace PointsTo

/-! ## The effects of calls -/

namespace Invocation

/-- The receiver of a call becomes the receiver of the method. -/
def receiverEffects (recv : Option Nat) (callee : Method) : List Effect :=
  match recv, callee.receiver with
  | some o, some this => [.arrive (.var this) o]
  | _, _ => []

/-- Returned values flow into the result of a call. -/
def resultEffects (c : Invocation) (callee : Method) : List Effect :=
  match c.call.result with
  | none => []
  | some x => .node (.var x) :: callee.returned.map fun v => .edge .ret (.var v) (.var x) none

/-- Arguments flow into parameters, of which there are as many, and returned values into the
result. -/
def valueEffects (c : Invocation) (callee : Method) : List Effect :=
  if c.args.length ≠ callee.formals.length then
    [.fault (.argumentCount c.stmt.parent (Fault.shown c.call.text?) c.args.length callee.id)]
  else
    (c.args.zip callee.formals).map (fun p => .edge .parameterPassing (.var p.1) (.var p.2) none) ++
      c.resultEffects callee

/-- Connecting a call with a method that it runs. -/
def linkEffects (c : Invocation) (recv : Option Nat) (callee : Method) : List Effect :=
  .call c callee.id :: (receiverEffects recv callee ++ c.valueEffects callee)

/-- A call on a receiver, whose type is given. -/
def effects (t : ClassTable) (c : Invocation) (recv : Option Nat) (type : Option Ty) :
    List Effect :=
  .ask c.call type ::
    match c.call.resolve t type with
    | .error f => [.fault f]
    | .ok (.error e) => [.unresolved c.stmt recv e]
    | .ok (.ok m) =>
      match t.method? m with
      | some callee => c.linkEffects recv callee
      | none => [.fault .absent]

/-- What may be among the effects of a call, and when. -/
inductive HasEffect (t : ClassTable) (c : Invocation) (recv : Option Nat) (type : Option Ty) :
    Effect → Prop
  | ask : HasEffect t c recv type (.ask c.call type)
  | unanswered {f : Fault} (h : c.call.resolve t type = .error f) : HasEffect t c recv
    type (.fault f)
  | unresolved {e : ResolutionError} (h : c.call.resolve t type = .ok (.error e)) :
    HasEffect t c recv type (.unresolved c.stmt recv e)
  | absent {m : MethodId} (h : c.call.resolve t type = .ok (.ok m)) (hm : t.method? m = none) :
    HasEffect t c recv type (.fault .absent)
  | call {m : MethodId} {callee : Method} (h : c.call.resolve t type = .ok (.ok m))
    (hm : t.method? m = some callee) : HasEffect t c recv type (.call c callee.id)
  | receiver {m : MethodId} {callee : Method} {o : Nat} {this : Var}
    (h : c.call.resolve t type = .ok (.ok m)) (hm : t.method? m = some callee)
    (hrecv : recv = some o)
    (hthis : callee.receiver = some this) : HasEffect t c recv type (.arrive (.var this) o)
  | arity {m : MethodId} {callee : Method} (h : c.call.resolve t type = .ok (.ok m))
    (hm : t.method? m = some callee) (hne : c.args.length ≠ callee.formals.length) :
    HasEffect t c recv type
      (.fault (.argumentCount c.stmt.parent (Fault.shown c.call.text?) c.args.length callee.id))
  | argument {m : MethodId} {callee : Method} {p : Var × Var}
    (h : c.call.resolve t type = .ok (.ok m))
    (hm : t.method? m = some callee) (hp : p ∈ c.args.zip callee.formals) :
    HasEffect t c recv type (.edge .parameterPassing (.var p.1) (.var p.2) none)
  | node {m : MethodId} {callee : Method} {x : Var} (h : c.call.resolve t type = .ok (.ok m))
    (hm : t.method? m = some callee) (hx : c.call.result = some x) :
    HasEffect t c recv type (.node (.var x))
  | result {m : MethodId} {callee : Method} {x v : Var} (h : c.call.resolve t type = .ok (.ok m))
    (hm : t.method? m = some callee) (hx : c.call.result = some x) (hv : v ∈ callee.returned) :
    HasEffect t c recv type (.edge .ret (.var v) (.var x) none)

variable {t : ClassTable} {c : Invocation} {recv : Option Nat} {type : Option Ty} {e : Effect}
  {callee : Method}

theorem effects_of_resolve {m : MethodId} (h : c.call.resolve t type = .ok (.ok m))
    (hm : t.method? m = some callee) :
    c.effects t recv type = .ask c.call type :: c.linkEffects recv callee := by
  unfold effects
  rw [h]
  dsimp only
  rw [hm]

theorem mem_receiverEffects : e ∈ receiverEffects recv callee ↔
    ∃ o this, recv = some o ∧ callee.receiver = some this ∧ e = .arrive (.var this) o := by
  unfold receiverEffects
  cases recv <;> cases callee.receiver <;> simp

theorem mem_resultEffects : e ∈ c.resultEffects callee ↔ ∃ x, c.call.result = some x ∧
    (e = .node (.var x) ∨ ∃ v ∈ callee.returned, e = .edge .ret (.var v) (.var x) none) := by
  unfold resultEffects
  cases c.call.result <;> simp [eq_comm]

theorem hasEffect_of_mem (he : e ∈ c.effects t recv type) : HasEffect t c recv type e := by
  unfold effects at he
  rcases List.mem_cons.mp he with rfl | he
  · exact .ask
  · rcases h : c.call.resolve t type with f | e' | m <;> rw [h] at he <;> dsimp only at he
    · rw [List.mem_singleton.mp he]
      exact .unanswered h
    · rw [List.mem_singleton.mp he]
      exact .unresolved h
    · cases hm : t.method? m with
      | none =>
        rw [hm] at he
        rw [List.mem_singleton.mp he]
        exact .absent h hm
      | some callee =>
        rw [hm] at he
        rcases List.mem_cons.mp he with rfl | he
        · exact .call h hm
        rcases List.mem_append.mp he with he | he
        · obtain ⟨o, this, hrecv, hthis, rfl⟩ := mem_receiverEffects.mp he
          exact .receiver h hm hrecv hthis
        unfold valueEffects at he
        split_ifs at he with hne
        · rw [List.mem_singleton.mp he]
          exact .arity h hm hne
        rcases List.mem_append.mp he with he | he
        · obtain ⟨p, hp, rfl⟩ := List.mem_map.mp he
          exact .argument h hm hp
        · obtain ⟨x, hx, rfl | ⟨v, hv, rfl⟩⟩ := mem_resultEffects.mp he
          · exact .node h hm hx
          · exact .result h hm hx hv

end Invocation

/-! ## The effects of statements -/

namespace Instr

/-- A statement for an object that reached its base. -/
def effectsOn (t : ClassTable) (o : Nat) (type : Option Ty) : Instr → List Effect
  | .load x _ f => [.edge .instanceLoad (.field o f) (.var x) none]
  | .store _ f y => [.edge .instanceStore (.var y) (.field o f) none]
  | .arrayLoad x _ => [.edge .arrayLoad (.elem o) (.var x) none]
  | .arrayStore _ y => [.edge .arrayStore (.var y) (.elem o) none]
  | .call c => c.effects t (some o) type
  | _ => []

/-- The variable at which a statement is put to wait, if it is. -/
def waitsAt? : Instr → Option Var
  | .load _ b f => if Ty.pointerLike f.type then some b else none
  | .store b f _ => if Ty.pointerLike f.type then some b else none
  | .arrayLoad x b => if Ty.pointerLike x.type then some b else none
  | .arrayStore b y => if Ty.pointerLike y.type then some b else none
  | .call c => if c.call.kind = .static then none else c.call.recv
  | _ => none

/-- A statement of a method that becomes reachable, before it meets the objects at its base. -/
def effects (t : ClassTable) (i : Instr) : List Effect :=
  match i.waitsAt? with
  | some b => [.node (.var b), .wait i]
  | none =>
    match i with
    | .new site => [.alloc site]
    | .assign x y =>
      if Ty.pointerLike x.type then [.edge .localAssign (.var y) (.var x) none] else []
    | .cast x y type =>
      if Ty.pointerLike x.type then [.edge .cast (.var y) (.var x) (some type)] else []
    | .staticLoad x f =>
      if Ty.pointerLike f.type then [.edge .staticLoad (.static f) (.var x) none] else []
    | .staticStore f y =>
      if Ty.pointerLike f.type then [.edge .staticStore (.var y) (.static f) none] else []
    | .call c => if c.call.kind = .static then c.effects t none none else [.fault .absent]
    | _ => []

theorem effects_of_waitsAt? {t : ClassTable} {i : Instr} {b : Var} (h : i.waitsAt? = some b) :
    i.effects t = [.node (.var b), .wait i] := by
  unfold effects
  rw [h]

theorem base?_of_waitsAt? {i : Instr} {b : Var} (h : i.waitsAt? = some b) : i.base? = some b := by
  cases i <;> simp_all [waitsAt?, base?]

/-- What may be among the effects of a statement for an object, and when. -/
inductive HasEffectOn (t : ClassTable) (o : Nat) (type : Option Ty) : Instr → Effect → Prop
  | load {x b : Var} {f : Field} :
    HasEffectOn t o type (.load x b f) (.edge .instanceLoad (.field o f) (.var x) none)
  | store {b y : Var} {f : Field} :
    HasEffectOn t o type (.store b f y) (.edge .instanceStore (.var y) (.field o f) none)
  | arrayLoad {x b : Var} : HasEffectOn t o type (.arrayLoad x b)
    (.edge .arrayLoad (.elem o) (.var x) none)
  | arrayStore {b y : Var} :
    HasEffectOn t o type (.arrayStore b y) (.edge .arrayStore (.var y) (.elem o) none)
  | call {c : Invocation} {e : Effect} (he : c.HasEffect t (some o) type e) :
    HasEffectOn t o type (.call c) e

/-- What may be among the effects of a statement whose method becomes reachable, and when. -/
inductive HasEffect (t : ClassTable) : Instr → Effect → Prop
  | node {i : Instr} {b : Var} (h : i.waitsAt? = some b) : HasEffect t i (.node (.var b))
  | wait {i : Instr} {b : Var} (h : i.waitsAt? = some b) : HasEffect t i (.wait i)
  | alloc {site : Site} : HasEffect t (.new site) (.alloc site)
  | assign {x y : Var} (h : Ty.pointerLike x.type) :
    HasEffect t (.assign x y) (.edge .localAssign (.var y) (.var x) none)
  | cast {x y : Var} {type : Ty} (h : Ty.pointerLike x.type) :
    HasEffect t (.cast x y type) (.edge .cast (.var y) (.var x) (some type))
  | staticLoad {x : Var} {f : Field} (h : Ty.pointerLike f.type) :
    HasEffect t (.staticLoad x f) (.edge .staticLoad (.static f) (.var x) none)
  | staticStore {y : Var} {f : Field} (h : Ty.pointerLike f.type) :
    HasEffect t (.staticStore f y) (.edge .staticStore (.var y) (.static f) none)
  | call {c : Invocation} {e : Effect} (h : c.call.kind = .static)
    (he : c.HasEffect t none none e) :
    HasEffect t (.call c) e
  | receiverless {c : Invocation} (h : c.call.kind ≠ .static) (hrecv : c.call.recv = none) :
    HasEffect t (.call c) (.fault .absent)

variable {t : ClassTable} {i : Instr} {o : Nat} {type : Option Ty} {e : Effect}

theorem hasEffectOn_of_mem (he : e ∈ i.effectsOn t o type) : HasEffectOn t o type i e := by
  cases i with
  | load x b f =>
    rw [List.mem_singleton.mp he]
    exact .load
  | store b f y =>
    rw [List.mem_singleton.mp he]
    exact .store
  | arrayLoad x b =>
    rw [List.mem_singleton.mp he]
    exact .arrayLoad
  | arrayStore b y =>
    rw [List.mem_singleton.mp he]
    exact .arrayStore
  | call c => exact .call (Invocation.hasEffect_of_mem he)
  | _ => exact absurd he List.not_mem_nil

theorem mem_guard {p : Prop} [Decidable p] {e' : Effect} (he : e ∈ if p then [e'] else []) :
    p ∧ e = e' := by
  split_ifs at he with hp
  · exact ⟨hp, List.mem_singleton.mp he⟩
  · exact absurd he List.not_mem_nil

theorem hasEffect_of_mem (he : e ∈ i.effects t) : HasEffect t i e := by
  unfold effects at he
  cases hi : i.waitsAt? with
  | some b =>
    rw [hi] at he
    rcases List.mem_cons.mp he with rfl | he
    · exact .node hi
    · rw [List.mem_singleton.mp he]
      exact .wait hi
  | none =>
    rw [hi] at he
    cases i with
    | new site =>
      rw [List.mem_singleton.mp he]
      exact .alloc
    | assign x y =>
      obtain ⟨h, rfl⟩ := mem_guard he
      exact .assign h
    | cast x y type =>
      obtain ⟨h, rfl⟩ := mem_guard he
      exact .cast h
    | staticLoad x f =>
      obtain ⟨h, rfl⟩ := mem_guard he
      exact .staticLoad h
    | staticStore f y =>
      obtain ⟨h, rfl⟩ := mem_guard he
      exact .staticStore h
    | call c =>
      dsimp only at he
      split_ifs at he with h
      · exact .call h (Invocation.hasEffect_of_mem he)
      · rw [List.mem_singleton.mp he]
        exact .receiverless h ((if_neg h).symm.trans hi)
    | _ => exact absurd he List.not_mem_nil

/-- The objects that the effects of a statement concern: the one that reached its base. -/
theorem effectsOn_below {n : Nat} (ho : o < n) (type : Option Ty) (i : Instr) :
    ∀ e ∈ i.effectsOn t o type, e.Below n := by
  intro e he
  cases hasEffectOn_of_mem he with
  | call he =>
    cases he with
    | receiver h hm hrecv hthis => exact Option.some.inj hrecv ▸ ho
    | _ => trivial
  | _ => trivial

theorem effects_below {n : Nat} (i : Instr) : ∀ e ∈ i.effects t, e.Below n := by
  intro e he
  cases hasEffect_of_mem he with
  | call h he =>
    cases he with
    | receiver h hm hrecv hthis => exact absurd hrecv nofun
    | _ => trivial
  | _ => trivial

theorem effectsOn_ne_wait (he : e ∈ i.effectsOn t o type) (i' : Instr) : e ≠ .wait i' := by
  cases hasEffectOn_of_mem he with
  | call he => cases he <;> exact nofun
  | _ => exact nofun

end Instr

namespace Solver

variable {t : ClassTable} {s : Solver} {o : Nat} {i : Instr} {v : Var} {e : Effect}

/-! ## Connecting calls -/

theorem apply_edge_eq (h : s.fault = none) (kind : EdgeKind) (a b : Pointer) (filter : Option Ty) :
    s.apply t (.edge kind a b filter) = s.connect t kind a b filter := by
  rw [apply, if_neg (not_isSome_fault h)]

theorem apply_node_eq (h : s.fault = none) (q : Pointer) :
    s.apply t (.node q) = (s.pointer q).2 := by
  rw [apply, if_neg (not_isSome_fault h)]

theorem apply_wait_eq (h : s.fault = none) (i : Instr) :
    s.apply t (.wait i) = { s with waiting := s.waiting ++ [i] } := by
  rw [apply, if_neg (not_isSome_fault h)]

theorem passArguments_eq (args formals : List Var) (hs : s.Proper t) (h : s.fault = none) :
    passArguments t args formals s = s.applyAll t ((args.zip formals).map fun p =>
      .edge .parameterPassing (.var p.1) (.var p.2) none) := by
  unfold passArguments
  generalize args.zip formals = ps
  induction ps generalizing s with
  | nil => rfl
  | cons p ps ih =>
    rw [List.foldl_cons, List.map_cons, applyAll_cons, ← apply_edge_eq h]
    exact ih (hs.apply trivial) ((fault_apply hs).mpr ⟨h, rfl⟩)

/-- A returned value is connected with the node of the result, which is there. -/
theorem connect_result_eq {j : Nat} {x : Var} (hs : s.Proper t) (hj : s.flow.key? j = some (.var x))
    (v : Var) : (s.pointer (.var v)).2.addEdge t .ret (s.pointer (.var v)).1 j none =
      s.connect t .ret (.var v) (.var x) := by
  have hfind := (hs.flow.intern (.var v)).find?_eq (FlowGraph.key?_intern.mpr (Or.inl hj))
  unfold connect pointer
  dsimp only
  rw [FlowGraph.intern_of_find? hfind]

theorem foldl_result_eq {j : Nat} {x : Var} (returned : List Var) (hs : s.Proper t)
    (hj : s.flow.key? j = some (.var x)) (h : s.fault = none) :
    returned.foldl
        (fun s v => (s.pointer (.var v)).2.addEdge t .ret (s.pointer (.var v)).1 j none) s =
      s.applyAll t (returned.map fun v => .edge .ret (.var v) (.var x) none) := by
  induction returned generalizing s with
  | nil => rfl
  | cons v vs ih =>
    rw [List.foldl_cons, List.map_cons, applyAll_cons, connect_result_eq hs hj, ← apply_edge_eq h]
    exact ih (hs.apply trivial) (key?_apply hs hj _) ((fault_apply hs).mpr ⟨h, rfl⟩)

theorem passResult_eq (c : Invocation) (callee : Method) (hs : s.Proper t) (h : s.fault = none) :
    passResult t c.call.result callee.returned s = s.applyAll t (c.resultEffects callee) := by
  unfold Invocation.resultEffects
  cases c.call.result with
  | none => rfl
  | some x =>
    have hs' : (s.pointer (.var x)).2.Proper t := apply_node_eq h (.var x) ▸ hs.apply trivial
    rw [applyAll_cons, apply_node_eq h]
    exact foldl_result_eq callee.returned hs' (FlowGraph.key?_intern_self s.flow (.var x)) h

/-- Effects that are no faults lead to no fault. -/
theorem fault_applyAll {es : List Effect} (hs : s.Proper t) (h : s.fault = none)
    (hes : ∀ e ∈ es, e.Below s.heap.size) (hok : ∀ e ∈ es, e.fault? = none) :
    (s.applyAll t es).fault = none :=
  (applyAll_induction (p := fun s => s.fault = none)
    (fun _ e he hs hf => (fault_apply hs).mpr ⟨hf, hok e he⟩) hs hes h).2

theorem pass_eq (c : Invocation) (callee : Method) (hs : s.Proper t) (h : s.fault = none) :
    (if c.args.length ≠ callee.formals.length then
      s.fail (.argumentCount c.stmt.parent (Fault.shown c.call.text?) c.args.length callee.id)
    else passResult t c.call.result callee.returned (passArguments t c.args callee.formals s)) =
      s.applyAll t (c.valueEffects callee) := by
  unfold Invocation.valueEffects
  split_ifs
  · rw [applyAll_cons, apply, if_neg (not_isSome_fault h)]
    rfl
  · have hedges : ∀ e ∈ (c.args.zip callee.formals).map (fun p : Var × Var =>
        Effect.edge .parameterPassing (.var p.1) (.var p.2) none), e.Below s.heap.size ∧
          e.fault? = none := by
      intro e he
      obtain ⟨p, -, rfl⟩ := List.mem_map.mp he
      exact ⟨trivial, rfl⟩
    rw [applyAll_append, passArguments_eq _ _ hs h]
    exact passResult_eq c callee (hs.applyAll fun e he => (hedges e he).1)
      (fault_applyAll hs h (fun e he => (hedges e he).1) fun e he => (hedges e he).2)

theorem receiverEffects_below {recv : Option Nat} {n : Nat} (hrecv : ∀ o, recv = some o → o < n)
    (callee : Method) : ∀ e ∈ Invocation.receiverEffects recv callee, e.Below n ∧
      e.fault? = none := by
  unfold Invocation.receiverEffects
  intro e he
  split at he
  · obtain rfl := List.mem_singleton.mp he
    exact ⟨hrecv _ rfl, rfl⟩
  · exact absurd he List.not_mem_nil

theorem receive_eq (h : s.fault = none) (recv : Option Nat) (callee : Method) :
    (match recv, callee.receiver with
      | some o, some this =>
        let (i, s) := s.pointer (.var this)
        s.enqueue i (.singleton o)
      | _, _ => s) = s.applyAll t (Invocation.receiverEffects recv callee) := by
  unfold Invocation.receiverEffects
  split
  · rw [applyAll_cons, apply, if_neg (not_isSome_fault h)]
    rfl
  · rfl

theorem link_eq (hs : s.Proper t) (h : s.fault = none) (c : Invocation) {recv : Option Nat}
    (hrecv : ∀ o, recv = some o → o < s.heap.size) (callee : Method) :
    s.link t c recv callee = s.applyAll t (c.linkEffects recv callee) := by
  have hs₁ : (s.apply t (.call c callee.id)).Proper t := hs.apply trivial
  have hf₁ : (s.apply t (.call c callee.id)).fault = none := (fault_apply hs).mpr ⟨h, rfl⟩
  have hmeet := receiverEffects_below
    (fun o ho => Nat.lt_of_lt_of_le (hrecv o ho) (size_heap_le_apply hs (.call c callee.id))) callee
  unfold Invocation.linkEffects
  rw [applyAll_cons, applyAll_append, ← pass_eq c callee (hs₁.applyAll fun e he => (hmeet e he).1)
    (fault_applyAll hs₁ hf₁ (fun e he => (hmeet e he).1) fun e he => (hmeet e he).2),
    ← receive_eq hf₁, apply, if_neg (not_isSome_fault h)]
  rfl

theorem dispatch_eq (hs : s.Proper t) (h : s.fault = none) (c : Invocation) {recv : Option Nat}
    (hrecv : ∀ o, recv = some o → o < s.heap.size) :
    s.dispatch t c recv = s.applyAll t (c.effects t recv (recv.bind s.typeOf?)) := by
  obtain ⟨memo, hmemo, hask⟩ := ask_eq (c.call.target_answers t (recv.bind s.typeOf?)) hs.memo
  have hasked : s.apply t (.ask c.call (recv.bind s.typeOf?)) = { s with memo } := by
    rw [apply, if_neg (not_isSome_fault h)]
    show (s.ask _).2 = _
    rw [hask]
  have hs₁ : ({ s with memo } : Solver).Proper t := hasked ▸ hs.apply trivial
  have hno := not_isSome_fault h
  unfold dispatch Invocation.effects
  dsimp only
  rw [hask, applyAll_cons, hasked]
  generalize c.call.resolve t (recv.bind s.typeOf?) = target
  rcases target with f | e | m
  · dsimp only
    rw [applyAll_cons, apply, if_neg hno]
    rfl
  · dsimp only
    rw [applyAll_cons, apply, if_neg hno]
    rfl
  · dsimp only
    cases t.method? m with
    | some callee => exact link_eq hs₁ h c hrecv callee
    | none =>
      dsimp only
      rw [applyAll_cons, apply, if_neg hno]
      rfl

/-! ## Performing statements -/

theorem fire_eq (hs : s.Proper t) (ho : o < s.heap.size) (i : Instr) :
    s.fire t o i = s.applyAll t (i.effectsOn t o (s.typeOf? o)) := by
  unfold fire
  split_ifs with h
  · rw [applyAll_of_fault h]
  · have hf : s.fault = none := Option.not_isSome_iff_eq_none.mp h
    unfold Instr.effectsOn
    cases i with
    | load x b f => exact (apply_edge_eq hf ..).symm
    | store b f y => exact (apply_edge_eq hf ..).symm
    | arrayLoad x b => exact (apply_edge_eq hf ..).symm
    | arrayStore b y => exact (apply_edge_eq hf ..).symm
    | call c =>
      refine dispatch_eq hs hf c fun o' ho' => ?_
      exact Option.some.inj ho' ▸ ho
    | _ => rfl

end Solver

end PointsTo
