import PointsTo.Proofs.Dispatches
import PointsTo.Proofs.LeastSolution
import PointsTo.Proofs.Solver.Safety

/-!
# Calls run methods of their receivers

A call edge leads to a method with the subsignature of the call. Static calls run static methods,
other calls run instance methods on an object that is at the receiver of the call and at the
receiver of the method, and the object of a virtual call is an instance of the class whose method is
run (`Program.analyze_typeSafe`).

What a table selects for a receiver is declared in a supertype of the receiver
(`isSubtype_of_resolveVirtual`). For arrays this needs a root class without interfaces: it has no
superclass, whatever is declared (`Declared.super_objectName`), so arrays have the methods of the
root class only.
-/

namespace PointsTo

namespace ClassTable

variable {t : ClassTable} {type : Ty} {subsig : String} {id : MethodId} {m : Method}

/-- A method has a receiver if it is not static. -/
theorem Declared.exists_receiver (ht : t.Declared) (hm : t.method? id = some m)
    (hstatic : m.static = false) :
    ∃ this, m.receiver = some this := by
  suffices h : m.static = false → m.receiver.isSome from Option.isSome_iff_exists.mp (h hstatic)
  refine ht.method_induction (q := fun _ m => m.static = false → m.receiver.isSome)
    (fun hdecl => ?_)
    (fun {id m m'} h hheader => ?_) id m hm
  · unfold Method.ofDecl at hdecl
    dsimp only at hdecl
    split_ifs at hdecl with hd
    · obtain ⟨vars, formals, -, -, rfl⟩ := Method.addFormals_eq hdecl
      exact fun h => nomatch hd.symm.trans h
    · split at hdecl
      · exact nomatch hdecl
      · obtain ⟨vars, formals, -, -, rfl⟩ := Method.addFormals_eq hdecl
        exact fun _ => rfl
  · have hstatic' : m'.header.static = m.header.static := by rw [hheader]
    have hreceiver' : m'.header.receiver = m.header.receiver := by rw [hheader]
    exact fun h' => (congrArg Option.isSome hreceiver').trans (h (hstatic'.symm.trans h'))

/-! ## What is selected for a receiver -/

/-- Above the root class there is nothing. -/
theorem above_objectName (ht : t.Declared) (hobject : (t.info objectName).interfaces = []) :
    t.chain objectName ++ t.superinterfaces objectName = [objectName] := by
  have hchain : t.chain objectName = [objectName] := chainUpTo_of_no_super ht.super_objectName
  unfold superinterfaces
  rw [hchain, List.flatMap_singleton, hobject, levels_of_subset
    fun _ h => absurd h List.not_mem_nil,
    List.append_nil]

/-- The class whose method runs is a supertype of the receiver, and for arrays it is the root
class. -/
theorem isSubtype_of_resolveVirtual (ht : t.Declared)
    (hobject : (t.info objectName).interfaces = [])
    (h : t.resolveVirtual type subsig = .ok (.ok id)) :
    t.isSubtype type (.cls id.cls) = true ∧ ∀ elem, type = .array elem → id.cls = objectName := by
  obtain ⟨c, c', m, hc, hmem, hm, hid, -⟩ := of_resolveVirtual_eq_ok h
  obtain rfl : id = ⟨c', subsig⟩ := hid.symm.trans (ht.id_eq hm)
  unfold receiverClass? at hc
  obtain ⟨hc, -⟩ := Option.filter_eq_some_iff.mp hc
  cases type with
  | cls d =>
    obtain rfl := Option.some.inj hc
    have hancestor : c' ∈ t.ancestors d := (List.mem_append.mp hmem).elim
      (fun h => chain_subset_ancestors ht.complete h)
      (fun h => superinterfaces_subset_ancestors ht.complete h)
    have hsub : t.isSubclass d c' = true := decide_eq_true hancestor
    refine ⟨?_, by simp⟩
    unfold isSubtype
    rw [hsub, Bool.or_true]
  | array elem =>
    obtain rfl := Option.some.inj hc
    rw [above_objectName ht hobject] at hmem
    obtain rfl := List.mem_singleton.mp hmem
    exact ⟨rfl, fun _ _ => rfl⟩
  | prim p => simp at hc
  | null => simp at hc

end ClassTable

/-! ## What a call finds -/

theorem Hierarchy.ask_eq {α : Type} {h : Hierarchy} {q : ClassTable → StateM Memo α} {a : α}
    (hm : h.memo.Faithful h.table) (hq : Memo.Answers h.table (q h.table) a) : (h.ask q).1 = a := by
  obtain ⟨memo, hrun, -⟩ := hq h.memo hm
  unfold ask
  rw [hrun]

namespace Call

/-- A method has the shape that a call on a receiver of a type asks for. -/
structure Fits (h : Hierarchy) (call : Call) (recv : Option Ty) (callee : Method) : Prop where
  subsig : call.ref.subsig? = some callee.sub.text
  static_iff : callee.static = true ↔ call.kind = .static
  /-- Static and special calls run what their reference denotes. -/
  denoted : call.kind = .static ∨ call.kind = .special → ∃ type, call.ref.cls = some type ∧
    (h.ask fun t => Memo.resolveMethod t type callee.sub.text).1 = .ok (.ok callee.id)
  /-- The receiver of a virtual call is an instance of the class of the method. -/
  isInstance : call.kind = .virtual ∨ call.kind = .interface → ∃ type, recv = some type ∧
    (h.ask fun t => Memo.isSubtype t type (.cls callee.cls)).1 = true ∧
    ∀ elem, type = .array elem → callee.cls = objectName

variable {h : Hierarchy} {call : Call} {recv : Option Ty} {id : MethodId}

/-- What a call finds is a method of the table that has the shape asked for. -/
theorem fits_of_resolve (ht : h.table.Declared) (hm : h.memo.Faithful h.table)
    (hobject : (h.table.info objectName).interfaces = [])
    (hr : call.resolve h.table recv = .ok (.ok id)) :
    ∃ callee, h.table.method? id = some callee ∧ call.Fits h recv callee := by
  obtain ⟨subsig, cls, callee, hsubsig, hcallee, hid⟩ := of_resolve_eq_ok hr
  have hid' := ht.id_eq hcallee
  obtain rfl : id = ⟨cls, subsig⟩ := hid.symm.trans hid'
  have hcls : callee.cls = cls := congrArg MethodId.cls hid'
  have hsub : callee.sub.text = subsig := congrArg MethodId.subsig hid'
  refine ⟨callee, hcallee, ?_⟩
  unfold resolve at hr
  rw [hsubsig] at hr
  dsimp only at hr
  cases hkind : call.kind with
  | static | special =>
    rw [hkind] at hr
    dsimp only at hr
    cases href : call.ref.cls with
    | none =>
      rw [href] at hr
      exact nomatch hr
    | some type =>
      rw [href] at hr
      obtain ⟨hmethod, hok⟩ := of_require_eq_ok hr
      rw [hcallee] at hok
      have hshape := Option.any_some.symm.trans hok
      refine ⟨by rw [hsub, hsubsig], ?_, fun _ => ⟨type, href, ?_⟩, by simp [hkind]⟩
      · simp [hkind] at hshape ⊢
        simp [hshape]
      · rw [hsub, hid', ← hmethod]
        exact Hierarchy.ask_eq hm (Memo.resolveMethod_answers _ _ _)
  | virtual | interface =>
    rw [hkind] at hr
    cases recv with
    | none => exact nomatch hr
    | some type =>
      obtain ⟨hsubtype, harray⟩ := ClassTable.isSubtype_of_resolveVirtual ht hobject hr
      obtain ⟨-, c', m, -, -, hm', hid, hstatic, -⟩ := ClassTable.of_resolveVirtual_eq_ok hr
      have hstatic : callee.static = false := by
        rw [← hid, ht.id_eq hm', hm'] at hcallee
        rwa [← Option.some.inj hcallee]
      refine ⟨by rw [hsub, hsubsig], by simp [hkind, hstatic], by simp [hkind],
        fun _ => ⟨type, rfl, ?_, ?_⟩⟩
      · rw [hcls, ← hsubtype]
        exact Hierarchy.ask_eq hm (Memo.isSubtype_answers _ _ _)
      · rw [hcls]
        exact harray
  | other code =>
    rw [hkind] at hr
    exact nomatch hr

end Call

/-- A call edge leads from a call to a method of the right shape. -/
structure Result.TypeSafe (p : Program) (r : Result) (e : CallEdge Stmt MethodId) (call : Call)
    (callee : Method) :
    Prop where
  op : e.site.op = .call call
  method : p.table.method? e.callee = some callee
  kind : e.kind = if call.kind = .interface then .virtual else call.kind
  static : call.kind = .static → call.Fits p.hierarchy none callee
  /-- There is an object at the receivers of the call and of the method for which the call finds the
  method. -/
  receiver : call.kind ≠ .static → ∃ v this o type, call.recv = some v ∧
    callee.receiver = some this ∧
    o ∈ r.pointsTo (.var v) ∧ o ∈ r.pointsTo (.var this) ∧ r.typeOf? o = some type ∧
    p.resolve call (some type) = .ok (.ok e.callee) ∧ call.Fits p.hierarchy (some type) callee

/-! ## Receivers -/

/-- The object on which a method is run is at its receiver. -/
theorem Solver.mem_receiver_of_closed {t : ClassTable} {s : Solver} {entries : List MethodId}
    (hs : s.Proper t)
    (hclosed : s.solution.Closed t entries) {c : Invocation} (hc : s.solution.Performs t (.call c))
    (hkind : c.call.kind ≠ .static) {v this : Var} {o : Nat} {site : Site} {id : MethodId}
    {callee : Method}
    (hv : c.call.recv = some v) (ho : s.Holds (.var v) o) (hsite : s.heap[o]? = some site)
    (hresolve : c.call.resolve t (some site.type) = .ok (.ok id))
    (hcallee : t.method? id = some callee)
    (hthis : callee.receiver = some this) : s.Holds (.var this) o := by
  have hmade : s.solution.MadeOn c (some site) := by
    unfold Solution.MadeOn
    rw [if_neg hkind]
    exact ⟨v, site, hv, (mem_solution_pts hs rfl).mpr ⟨o, hsite, ho⟩, rfl⟩
  have hlinked := hclosed.obeys hc (some site) callee hmade ⟨id, hresolve, hcallee⟩
  obtain ⟨o', hsite', ho'⟩ :=
    (mem_solution_pts (q := .var this) hs rfl).mp (hlinked.receiver site this rfl hthis)
  rwa [hs.heap hsite hsite']

namespace Program

open Description

variable {p : Program} {c : AnalysisConfig} {r : Result}

/-- Dispatch is type-safe: every call edge leads to a method of the shape that the call asks for,
and comes with an object that is at the receivers of both. -/
theorem analyze_typeSafe (hp : p.hierarchy.Steady) (hf : p.table.FiniteChains)
    (hobject : (p.table.info objectName).interfaces = [])
    (hbodies : ∀ id m, p.table.method? id = some m → m.Added) (hr : (p.analyze c).outcome = .ok r) :
    ∀ e ∈ r.calls.edges, ∃ call callee, r.TypeSafe p e call callee := by
  have ht := hp.declared_table
  have hmemo := hp.faithful hf
  have haccounts := accounts_of_analyze ht (fun id m hm => (hbodies id m hm).numbered.nodup) hr
  have hclosed := closed_of_analyze hmemo (fun id m hm => (hbodies id m hm).collected) hr
  obtain ⟨-, s, hsolve, rfl⟩ := of_analyze_eq_ok hr
  have hs := (Solver.final_of_solve hmemo hsolve).proper
  rintro ⟨st, id, kind⟩ he
  obtain ⟨call, object, ⟨hop, ⟨m, hm, M, hM, hst⟩, hmeets⟩, hresolve, hkind⟩ :=
    (haccounts.edge_iff _ _ _).mp he
  have htarget : call.resolve p.table (object.bind (Result.ofSolver s).typeOf?) = .ok (.ok id) :=
    (Hierarchy.ask_eq hmemo (Call.target_answers _ _ _)).symm.trans hresolve
  obtain ⟨callee, hcallee, hfits⟩ := Call.fits_of_resolve ht hmemo hobject htarget
  refine ⟨call, callee, hop, hcallee, ?_, fun hstatic => ?_, fun hstatic => ?_⟩
  · rw [hkind]
    cases call.kind <;> rfl
  · rw [if_pos hstatic] at hmeets
    rwa [hmeets] at hfits
  · rw [if_neg hstatic] at hmeets
    obtain ⟨v, o, hv, rfl, ho⟩ := hmeets
    have hholds := (Solver.mem_pointsTo hs).mp ho
    obtain ⟨site, hsite⟩ : ∃ site, s.heap[o]? = some site :=
      ⟨_, Array.getElem?_eq_getElem (hs.lt_of_holds hholds)⟩
    have htype : (Result.ofSolver s).typeOf? o = some site.type := Solver.typeOf?_of_getElem? hsite
    rw [Option.bind_some, htype] at hresolve htarget hfits
    have hnot : callee.static = false := Bool.eq_false_iff.mpr (mt hfits.static_iff.mp hstatic)
    obtain ⟨this, hthis⟩ := ht.exists_receiver hcallee hnot
    refine ⟨v, this, o, site.type, hv, hthis, ho, (Solver.mem_pointsTo hs).mpr ?_, htype,
      hresolve, hfits⟩
    have hreachable : m ∈ s.solution.reachable := decide_eq_true hm
    obtain ⟨i, hi, -⟩ := hclosed.body m hreachable M hM st hst
    obtain ⟨args, hargs⟩ := Stmt.exists_instr?_eq_call hop hi
    have hperforms : s.solution.Performs p.table (.call ⟨st, call, args⟩) :=
      ⟨m, hreachable, M, hM, List.mem_filterMap.mpr ⟨st, hst, hargs⟩⟩
    exact Solver.mem_receiver_of_closed hs hclosed hperforms hstatic hv hholds hsite htarget
      hcallee hthis

/-- A chime rings as all ringers do. It is polished as an object by a special call, an array by a
virtual one. -/
def chimes : Description where
  entries := ["<Main: void main()>"]
  classes := [
    ⟨"java.lang.Object", "", [], false, false, [],
      [⟨"void polish()", [], false, false, false, [], []⟩]⟩,
    ⟨"Ringer", "", [], true, true, [],
      [⟨"void ring()", [], false, false, false, [], [{ blank with op := "return" }]⟩]⟩,
    ⟨"Chime", "", ["Ringer"], false, false, [],
      [⟨"void polish()", [], false, false, false, [], []⟩]⟩,
    ⟨"Main", "", [], false, false, [],
      [⟨"void main()", [], true, false, false, [("x", "Chime"), ("xs", "Chime[]")], [
        { blank with op := "new", lhs := "x", type := "Chime" },
        { blank with op := "new", lhs := "xs", type := "Chime[]" },
        { blank with
          op := "invoke", kind := "interface", recv := "x", method := "<Ringer: void ring()>" },
        { blank with
          op := "invoke", kind := "special", recv := "x",
          method := "<java.lang.Object: void polish()>" },
        { blank with op := "invoke", recv := "xs", method := "<java.lang.Object: void polish()>" },
        { blank with op := "invoke", kind := "static", method := "<Main: void main()>" }]⟩]⟩]

/-- The program that `chimes` describes. -/
def chimesProgram : Program := chimes.build.toOption.getD {}

theorem build_chimes : chimes.build = .ok chimesProgram := eq_ok_of_isSome (by decide +kernel) {}

/-- The result of its analysis. -/
def chimesResult : Result :=
  (chimesProgram.analyze {}).outcome.toOption.getD (.ofSolver (.start {} []))

theorem analyze_chimes : (chimesProgram.analyze {}).outcome = .ok chimesResult :=
  eq_ok_of_isSome (by decide +kernel) _

theorem typeSafe_chimes :
    chimesResult.calls.edges.map (fun e => (e.callee, e.kind)) =
      [(⟨"Main", "void main()"⟩, .static), (⟨"Ringer", "void ring()"⟩, .virtual),
        (⟨"java.lang.Object", "void polish()"⟩, .special),
        (⟨"java.lang.Object", "void polish()"⟩, .virtual)] ∧
    ∀ e ∈ chimesResult.calls.edges, ∃ call callee, chimesResult.TypeSafe chimesProgram e call
      callee := by
  have hp := steady_of_build build_chimes
  have htable : (∀ c ∈ chimesProgram.table.names, chimesProgram.table.isEndless c = false) ∧
      (chimesProgram.table.info objectName).interfaces = [] := by decide +kernel
  have hf := (ClassTable.finiteChains_iff hp.declared_table.complete).mpr htable.1
  have hbodies : ∀ id m, chimesProgram.table.method? id = some m → m.Added := fun id m hm =>
    ((chimes.build_loaded _ build_chimes).1.methods id m hm).added
  exact ⟨by decide +kernel, analyze_typeSafe hp hf htable.2 hbodies analyze_chimes⟩

end Program

end PointsTo
