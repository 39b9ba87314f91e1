import PointsTo.Proofs.Answers
import PointsTo.Proofs.Constraints
import PointsTo.Proofs.Loading
import PointsTo.Proofs.Solver.Run
import PointsTo.Proofs.Validation

/-!
# No faults

In a program that was read from a description and has no violations, the target of every call can be
asked for, what is found is a method of the table, and its parameters have the types that the call
refers to (`Call.Readable.target_of_resolve`). The only fault that a statement may have as its
effect is a search up a superclass chain without end (`Program.faultless_of_loaded`), and steps of
the solver on such a program lead to no other (`Fit.step`).
-/

namespace PointsTo

/-! ## Calls -/

theorem length_of_allSome {α : Type} : ∀ {l : List (Option α)} {as : List α}, allSome l = some as →
    as.length = l.length
  | [], _, h => by cases h; rfl
  | none :: _, _, h => nomatch h
  | some a :: l, as, h => by
    obtain ⟨as, has, rfl⟩ := Option.map_eq_some_iff.mp h
    rw [List.length_cons, List.length_cons, length_of_allSome has]

namespace Call

variable {t : ClassTable} {c : Call} {recv : Option Ty}

theorem of_require_eq_ok {type : Ty} {subsig : String} {ok : Method → Bool}
    {reason : MethodId → Reason}
    {r : Target} {m : MethodId} (h : r.map (require t type subsig ok reason) = .ok (.ok m)) :
    r = .ok (.ok m) ∧ (t.method? m).any ok = true := by
  obtain f | e | m' := r
  · exact nomatch h
  · exact nomatch h
  · have h : require t type subsig ok reason (.ok m') = .ok m := Except.ok.inj h
    unfold require at h
    dsimp only at h
    split_ifs at h with hok
    obtain rfl := Except.ok.inj h
    exact ⟨rfl, hok⟩

/-- The target of a call is declared with the subsignature of the call. -/
theorem of_resolve_eq_ok {id : MethodId} (h : c.resolve t recv = .ok (.ok id)) :
    ∃ subsig cls m, c.ref.subsig? = some subsig ∧ t.method? ⟨cls, subsig⟩ = some m ∧ m.id = id := by
  obtain ⟨kind, ref, v, args, result, label⟩ := c
  unfold resolve at h
  dsimp only at h ⊢
  cases hsubsig : ref.subsig? with
  | none =>
    rw [hsubsig] at h
    exact nomatch h
  | some subsig =>
    rw [hsubsig] at h
    dsimp only at h
    suffices hm : ∃ cls m, t.method? ⟨cls, subsig⟩ = some m ∧ m.id = id by
      obtain ⟨cls, m, hm⟩ := hm
      exact ⟨subsig, cls, m, rfl, hm⟩
    cases kind with
    | static | special =>
      cases hcls : ref.cls with
      | none =>
        rw [hcls] at h
        exact nomatch h
      | some type =>
        rw [hcls] at h
        exact ClassTable.of_resolveMethod_eq_ok (of_require_eq_ok h).1
    | virtual | interface =>
      cases recv with
      | none => exact nomatch h
      | some type =>
        obtain ⟨-, cls, m, -, -, hm, hid, -⟩ := ClassTable.of_resolveVirtual_eq_ok h
        exact ⟨cls, m, hm, hid⟩
    | other code => exact nomatch h

/-- A call that was read from a text can be asked about, if it has a receiver or needs none. -/
theorem Readable.unending_of_resolve (hc : c.Readable)
    (hrecv : c.kind = .static ∨ recv.isSome) {f : Fault}
    (h : c.resolve t recv = .error f) : t.Unending f := by
  obtain ⟨hkind, s, href, -⟩ := hc
  have hsubsig : c.ref.subsig? = some s.sub.text := href ▸ MethodRef.subsig?_ofSignature s
  have hcls : c.ref.cls = some (.cls s.cls) := by rw [href]; rfl
  unfold resolve at h
  rw [hsubsig, hcls] at h
  dsimp only at h
  cases hk : c.kind with
  | static | special =>
    rw [hk] at h
    exact ClassTable.unending_of_resolveMethod (of_map_eq_error h)
  | virtual | interface =>
    obtain ⟨type, rfl⟩ :=
      Option.isSome_iff_exists.mp (hrecv.resolve_left fun h => nomatch hk.symm.trans h)
    rw [hk] at h
    exact ClassTable.unending_of_resolveVirtual h
  | other code => exact absurd hk (hkind code)

/-- The target of a call is in the table, and its parameters have the types that the call refers
to. -/
theorem Readable.target_of_resolve (ht : t.Loaded) (hc : c.Readable) {m : MethodId}
    (h : c.resolve t recv = .ok (.ok m)) :
    ∃ callee, t.method? m = some callee ∧ callee.sub.params.map some = c.ref.params ∧
      callee.formals.map Var.type = c.ref.params := by
  obtain ⟨subsig, cls, callee, hsubsig, hcallee, hid⟩ := of_resolve_eq_ok h
  obtain ⟨-, s, href, hplain⟩ := hc
  have hid' := ht.declared.id_eq hcallee
  have hreadable := ht.methods _ callee hcallee
  -- both subsignatures have the text under which the callee was found
  have htext : s.sub.text = callee.sub.text := by
    have hs : c.ref.subsig? = some s.sub.text := href ▸ MethodRef.subsig?_ofSignature s
    rw [Option.some.inj (hs.symm.trans hsubsig)]
    exact (congrArg MethodId.subsig hid').symm
  have hparams : callee.sub.params.map some = c.ref.params := by
    rw [← hplain.params_eq hreadable.sub htext, href]
    rfl
  refine ⟨callee, ?_, hparams, hreadable.formals.trans hparams⟩
  rw [← hid, hid']
  exact hcallee

/-- It has as many parameters as the call has arguments. -/
theorem length_formals {callee : Method} {n : Nat} (hargs : n = c.ref.params.length)
    (h : callee.formals.map Var.type = c.ref.params) : n = callee.formals.length := by
  rw [hargs, ← h, List.length_map]

end Call

namespace Invocation

variable {t : ClassTable} {c : Invocation} {recv : Option Nat} {type : Option Ty} {e : Effect}

theorem fault?_of_hasEffect (ht : t.Loaded) (hc : c.call.Readable)
    (hargs : c.args.length = c.call.ref.params.length) (htype : c.call.kind = .static ∨ type.isSome)
    (he : c.HasEffect t recv type e) : ∀ f ∈ e.fault?, t.Unending f := by
  cases he with
  | unanswered h =>
    rintro _ ⟨⟩
    exact hc.unending_of_resolve htype h
  | absent h hm =>
    obtain ⟨callee, hcallee, -⟩ := hc.target_of_resolve ht h
    exact nomatch hm.symm.trans hcallee
  | arity h hm hne =>
    obtain ⟨callee, hcallee, -, htypes⟩ := hc.target_of_resolve ht h
    rw [Option.some.inj (hcallee.symm.trans hm)] at htypes
    exact absurd (Call.length_formals hargs htypes) hne
  | _ => exact fun f hf => nomatch hf

end Invocation

/-! ## Programs -/

theorem Method.checkCall_of_checkStmt {t : ClassTable} {m : Method} {s : Stmt} {c : Call}
    (h : m.checkStmt t s = .ok ()) (hop : s.op = .call c) : m.checkCall c = .ok () := by
  obtain ⟨id, op⟩ := s
  obtain rfl : op = .call c := hop
  unfold checkStmt at h
  exact (of_guard_eq_ok h).2

/-- No effect of a statement is a fault other than a search without end, if objects have types. -/
def Instr.Faultless (t : ClassTable) (i : Instr) : Prop :=
  (∀ o type, ∀ e ∈ i.effectsOn t o (some type), ∀ f ∈ e.fault?, t.Unending f) ∧
    ∀ e ∈ i.effects t, ∀ f ∈ e.fault?, t.Unending f

namespace Program

variable {p : Program} {i : Instr}

theorem mem_instrs_of_method? {id : MethodId} {m : Method} (hm : p.table.method? id = some m)
    (hi : i ∈ m.instrs) : i ∈ p.instrs :=
  List.mem_flatMap.mpr ⟨m, ClassTable.mem_methods_of_method? hm, hi⟩

/-- What the calls of a loaded program without violations have. -/
theorem of_call_mem_instrs (hp : p.table.Loaded)
    (hvalid : ∀ id m, p.table.method? id = some m → ∀ s ∈ m.body, m.checkStmt p.table s = .ok ())
    {c : Invocation} (h : .call c ∈ p.instrs) : c.call.Readable ∧
      c.args.length = c.call.ref.params.length ∧ (c.call.kind ≠ .static → c.call.recv.isSome) := by
  obtain ⟨m, hm, hi⟩ := List.mem_flatMap.mp h
  obtain ⟨id, hid⟩ := ClassTable.exists_method?_of_mem hm
  obtain ⟨s, hs, hsi⟩ := List.mem_filterMap.mp hi
  obtain ⟨-, hop, hargs⟩ := Stmt.of_instr?_call hsi
  obtain ⟨hlen, hrecv, -⟩ :=
    Method.of_checkCall (Method.checkCall_of_checkStmt (hvalid id m hid s hs) hop)
  exact ⟨(hp.methods id m hid).body s hs c.call hop, (length_of_allSome hargs).trans hlen, hrecv⟩

theorem faultless_of_loaded (hp : p.table.Loaded)
    (hvalid : ∀ id m, p.table.method? id = some m → ∀ s ∈ m.body, m.checkStmt p.table s = .ok ())
    (hi : i ∈ p.instrs) : i.Faultless p.table := by
  constructor
  · intro o type e he
    cases Instr.hasEffectOn_of_mem he with
    | call he =>
      obtain ⟨hc, hargs, -⟩ := of_call_mem_instrs hp hvalid hi
      exact Invocation.fault?_of_hasEffect hp hc hargs (Or.inr rfl) he
    | _ => exact fun f hf => nomatch hf
  · intro e he
    cases Instr.hasEffect_of_mem he with
    | call hstatic he =>
      obtain ⟨hc, hargs, -⟩ := of_call_mem_instrs hp hvalid hi
      exact Invocation.fault?_of_hasEffect hp hc hargs (Or.inl hstatic) he
    | receiverless hkind hnone =>
      obtain ⟨-, -, hrecv⟩ := of_call_mem_instrs hp hvalid hi
      have hsome := hrecv hkind
      rw [hnone] at hsome
      exact nomatch hsome
    | _ => exact fun f hf => nomatch hf

end Program

/-! ## Steps -/

/-- The effect is no fault other than a search without end, and what it adds to the heap or puts to
wait is of the program. -/
def Effect.Fits (p : Program) : Effect → Prop
  | .alloc site => .new site ∈ p.instrs
  | .wait i => i ∈ p.instrs
  | .fault f => p.table.Unending f
  | _ => True

namespace Solver

variable {p : Program} {s : Solver} {e : Effect} {i : Instr}

/-- No fault has occurred other than a search without end, and the objects and the waiting
statements are of the program. -/
structure Fit (p : Program) (s : Solver) : Prop where
  fault : ∀ f ∈ s.fault, p.table.Unending f
  heap : ∀ {o : Nat} {site : Site}, s.heap[o]? = some site → .new site ∈ p.instrs
  waiting : ∀ i ∈ s.waiting, i ∈ p.instrs

theorem Fit.apply (h : s.Fit p) (hs : s.Proper p.table) (he : e.Fits p) :
    (s.apply p.table e).Fit p where
  fault f hf := by
    rcases of_fault_apply_eq_some hs hf with hf | hf
    · exact h.fault f hf
    · cases e with
      | fault f' => exact Option.some.inj hf ▸ he
      | _ => exact nomatch hf
  heap ho := by
    rcases (getElem?_heap_apply hs).mp ho with ho | ⟨-, rfl, -⟩
    · exact h.heap ho
    · exact he
  waiting i hi := by
    rcases (mem_waiting_apply hs).mp hi with hi | ⟨-, rfl⟩
    · exact h.waiting i hi
    · exact he

theorem Fit.applyAll (h : s.Fit p) (hs : s.Proper p.table) {es : List Effect}
    (hes : ∀ e ∈ es, e.Below s.heap.size) (hfits : ∀ e ∈ es, e.Fits p) :
    (s.applyAll p.table es).Fit p :=
  (applyAll_induction (p := Fit p) (fun _ e he hs h => h.apply hs (hfits e he)) hs hes h).2

theorem fits_of_effectsOn (hf : i.Faultless p.table) {o : Nat} {type : Ty}
    (he : e ∈ i.effectsOn p.table o (some type)) : e.Fits p := by
  have hfault := hf.1 o type e he
  cases Instr.hasEffectOn_of_mem he with
  | call he => cases he <;> first | trivial | exact hfault _ rfl
  | _ => trivial

theorem fits_of_effects (hi : i ∈ p.instrs) (hf : i.Faultless p.table)
    (he : e ∈ i.effects p.table) :
    e.Fits p := by
  have hfault := hf.2 e he
  cases Instr.hasEffect_of_mem he with
  | wait h => exact hi
  | alloc => exact hi
  | call h he => cases he <;> first | trivial | exact hfault _ rfl
  | receiverless h hrecv => exact hfault _ rfl
  | _ => trivial

theorem exists_typeOf? {o : Nat} (h : o < s.heap.size) : ∃ type, s.typeOf? o = some type :=
  ⟨_, typeOf?_of_getElem? (Array.getElem?_eq_getElem h)⟩

namespace Begins

variable {first : Solver} {es : List Effect}

theorem fit (hfirst : s.Begins p.table first es) (hs : s.Proper p.table) (h : s.Fit p) :
    first.Fit p := by
  cases hfirst with
  | arrive hpop hlt hos hnew =>
    obtain ⟨memo, facts, -, heq⟩ := arrive_eq (hs.taken hpop) _ _
    rw [heq]
    exact { h with }
  | _ => exact { h with }

theorem fits (hfirst : s.Begins p.table first es) (hs : s.Proper p.table) (h : s.Fit p)
    (hp : ∀ i ∈ p.instrs, i.Faultless p.table) : ∀ e ∈ es, e.Fits p := by
  intro e he
  cases hfirst with
  | idle hpop => exact absurd he List.not_mem_nil
  | known hpop hold => exact absurd he List.not_mem_nil
  | arrive hpop hlt hos hnew =>
    obtain ⟨o, i, ho, hi, he⟩ := exists_of_mem_wakeEffects he
    obtain ⟨type, htype⟩ := exists_typeOf? ((hos.diff _).lt o ho)
    rw [htype] at he
    exact fits_of_effectsOn (hp i (h.waiting i hi)) he
  | enter hpop =>
    obtain ⟨M, hM, i, hi, he⟩ := mem_bodyEffects.mp he
    have hmem := Program.mem_instrs_of_method? hM hi
    rcases mem_effectsOf.mp he with he | ⟨b, -, o, ho, he⟩
    · exact fits_of_effects hmem (hp i hmem) he
    · obtain ⟨type, htype⟩ := exists_typeOf? ((hs.pts _).lt o ho)
      rw [htype] at he
      exact fits_of_effectsOn (hp i hmem) he

end Begins

/-- A step leads to no fault if no statement of the program does. -/
theorem Fit.step (h : s.Fit p) (hs : s.Proper p.table) (hp : ∀ i ∈ p.instrs, i.Faultless p.table) :
    (s.step p.table).Fit p := by
  obtain ⟨first, es, hfirst, heq⟩ := exists_begins hs
  rw [heq]
  exact (hfirst.fit hs h).applyAll (hfirst.proper hs) (hfirst.below hs) (hfirst.fits hs h hp)

theorem Initial.fit {memo : Memo} (hs : s.Initial memo) : s.Fit p where
  fault f hf := by simp [hs.fault] at hf
  heap h := by simp [hs.heap] at h
  waiting i hi := by simp [hs.waiting] at hi

end Solver

end PointsTo
