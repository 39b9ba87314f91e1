import PointsTo.Proofs.CallPaths
import PointsTo.Proofs.Dispatches
import PointsTo.Proofs.Solver.Safety

/-!
# Abstract methods as targets

Virtual, interface and special calls run concrete instance methods only, but a static call runs
whatever static method its reference denotes. So an abstract method may be reachable: it is then
static, no entry, and run by a static call (`Program.analyze_abstract`).

Declarations and questions may come in any order before the analysis (`Hierarchy.Arises`), and
answers from before a declaration are remembered after it. This does no harm here: the methods of a
table stay in it and stay concrete (`Changes.concrete`), and so do those that were answered for
virtual calls (`Arises.concrete`).
-/

namespace PointsTo

/-! ## Declarations -/

namespace ClassTable

variable {t t' : ClassTable} {id : MethodId}

/-- The table has a concrete instance method of this identity. -/
def Concrete (t : ClassTable) (id : MethodId) : Prop :=
  ∃ m, t.method? id = some m ∧ m.static = false ∧ m.abstract = false

/-- The tables to which one mention, declaration or change of a body leads. -/
inductive Changes (t : ClassTable) : ClassTable → Prop
  | mention (name : String) : Changes t (t.mention name)
  | declare (name : String) (d : ClassDecl) : Changes t (t.declare name d)
  | addField {t' : ClassTable} {on : Ty} {name : String} {type : Option Ty}
    {static : Bool} {f : Field}
    (hok : t.addField on name type static = .ok (f, t')) : Changes t t'
  | addMethod {t' : ClassTable} {on : Ty} {d : MethodDecl} {m : Method}
    (hok : t.addMethod on d = .ok (m, t')) :
    Changes t t'
  | body {id : MethodId} {m m' : Method} (hm : t.method? id = some m)
    (hheader : m'.header = m.header) :
    Changes t (t.setMethod m')

theorem Changes.declared (h : t.Changes t') (ht : t.Declared) : t'.Declared := by
  cases h with
  | mention name => exact ht.mention name
  | declare name d => exact ht.declare name d
  | addField hok => exact ht.addField hok
  | addMethod hok => exact ht.addMethod hok
  | body hm hheader => exact ht.body hm hheader

/-- A concrete method stays where it is. -/
theorem Changes.concrete (h : t.Changes t') (ht : t.Declared) (hid : t.Concrete id) :
    t'.Concrete id := by
  obtain ⟨M, hM, hstatic, habstract⟩ := hid
  cases h with
  | mention name => exact ⟨M, (method?_mention t name id).trans hM, hstatic, habstract⟩
  | declare name d => exact ⟨M, (method?_declare t name d id).trans hM, hstatic, habstract⟩
  | addField hok => exact ⟨M, (method?_addField hok id).trans hM, hstatic, habstract⟩
  | addMethod hok =>
    unfold ClassTable.addMethod at hok
    split at hok
    · split at hok
      · obtain ⟨-, rfl⟩ := Prod.mk.inj (Except.ok.inj hok)
        exact ⟨M, hM, hstatic, habstract⟩
      · next hnone =>
        split at hok
        · exact nomatch hok
        · next m hdecl =>
          obtain ⟨-, rfl⟩ := Prod.mk.inj (Except.ok.inj hok)
          obtain ⟨receiver, vars, formals, -, -, -, rfl⟩ := Method.ofDecl_eq hdecl
          refine ⟨M, ?_, hstatic, habstract⟩
          rw [method?_setMethod, if_neg, hM]
          -- what is added was not there before
          rintro rfl
          exact nomatch hM.symm.trans hnone
    · exact nomatch hok
  | @body id' m m' hm hheader =>
    by_cases hid : id = m'.id
    · subst hid
      have hmid : m'.id = id' := (Method.id_eq_of_header_eq hheader).trans (ht.id_eq hm)
      obtain rfl : m = M := Option.some.inj (hm.symm.trans (hmid ▸ hM))
      have hstatic' : m'.header.static = m.header.static := by rw [hheader]
      have habstract' : m'.header.abstract = m.header.abstract := by rw [hheader]
      refine ⟨m', ?_, hstatic'.trans hstatic, habstract'.trans habstract⟩
      rw [method?_setMethod, if_pos rfl]
    · refine ⟨M, ?_, hstatic, habstract⟩
      rw [method?_setMethod, if_neg hid, hM]

end ClassTable

/-! ## Answers about virtual calls -/

namespace Memo

variable {t : ClassTable} {m : Memo}

theorem answer_keepM_subset {α : Type} (p : α → StateM Memo Bool) :
    ∀ (l : List α) (m : Memo), answer (keepM p l) m ⊆ l
  | [], _ => List.Subset.refl []
  | a :: as, m => by
    have ih := answer_keepM_subset p as (after (p a) m)
    show (if answer (p a) m then a :: answer (keepM p as) (after (p a) m)
      else answer (keepM p as) (after (p a) m)) ⊆ a :: as
    split_ifs
    · exact List.cons_subset_cons a ih
    · exact List.subset_cons_of_subset a ih

/-- The answers about virtual calls are concrete instance methods. -/
def Concrete (t : ClassTable) (m : Memo) : Prop :=
  ∀ type subsig id, answer (resolveVirtual t type subsig) m = .ok (.ok id) → t.Concrete id

/-- An answer that is not remembered is a concrete instance method, whatever else is remembered. -/
theorem concrete_of_lookup (ht : t.Declared)
    (h : ∀ k id, m.virtuals.lookup k = some (.ok id) → t.Concrete id) : m.Concrete t := by
  intro type subsig id hans
  rw [answer_resolveVirtual] at hans
  cases hl : m.virtuals.lookup (type, subsig) with
  | some r =>
    rw [hl, Option.map_some, Option.getD_some] at hans
    exact h _ id (Except.ok.inj hans ▸ hl)
  | none =>
    rw [hl, Option.map_none, Option.getD_none, answer_selectVirtual] at hans
    obtain ⟨c, c', M, -, -, hM, hid, hstatic, habstract⟩ :=
      ClassTable.of_chooseVirtual_eq_ok (fun _ => answer_keepM_subset _ _ _) hans
    obtain rfl : id = ⟨c', subsig⟩ := hid.symm.trans (ht.id_eq hM)
    exact ⟨M, hM, hstatic, habstract⟩

end Memo

namespace Hierarchy

variable {h : Hierarchy}

/-- The hierarchies to which declarations and questions lead, in any order. -/
inductive Arises : Hierarchy → Prop
  | initial : Arises .initial
  | changed {h : Hierarchy} {t : ClassTable} (hh : Arises h) (ht : h.table.Changes t) :
    Arises { h with table := t }
  | asked {h : Hierarchy} {memo : Memo} (hh : Arises h) (hm : Memo.Asked h.table h.memo memo) :
    Arises { h with memo }

theorem Arises.declared (hh : h.Arises) : h.table.Declared := by
  induction hh with
  | initial => exact .initial
  | changed _ ht ih => exact ht.declared ih
  | asked _ _ ih => exact ih

theorem Arises.concrete (hh : h.Arises) : h.memo.Concrete h.table := by
  induction hh with
  | initial => exact Memo.concrete_of_lookup .initial nofun
  | @changed h t hh ht ih =>
    refine Memo.concrete_of_lookup (ht.declared hh.declared)
      fun k id hl => ht.concrete hh.declared ?_
    refine ih k.1 k.2 id ?_
    rw [Memo.answer_resolveVirtual, hl, Option.map_some, Option.getD_some]
  | asked _ hm ih =>
    exact fun type subsig id hans => ih type subsig id
      ((hm.same.virtuals type subsig).symm.trans hans)

theorem arises_of_declared {t : ClassTable} (ht : t.Declared) : Arises { table := t } := by
  induction ht with
  | initial => exact .initial
  | mention _ name ih => exact ih.changed (.mention name)
  | declare _ name d ih => exact ih.changed (.declare name d)
  | addField _ hok ih => exact ih.changed (.addField hok)
  | addMethod _ hok ih => exact ih.changed (.addMethod hok)
  | body _ hm hheader ih => exact ih.changed (.body hm hheader)

theorem Steady.arises (hh : h.Steady) : h.Arises := by
  induction hh with
  | declared ht => exact arises_of_declared ht
  | asked _ hm ih => exact ih.asked hm
  | mention _ name ih => exact ih.changed (.mention name)
  | body _ hm hheader ih => exact ih.changed (.body hm hheader)

end Hierarchy

/-! ## Targets -/

/-- Only static calls find abstract methods, and these are static. -/
theorem Call.of_answer_target {t : ClassTable} {memo : Memo} {c : Call} {recv : Option Ty}
    {id : MethodId}
    (hmemo : memo.Concrete t) (h : Memo.answer (c.target t recv) memo = .ok (.ok id)) :
    ∃ m, t.method? id = some m ∧ (m.abstract = true → c.kind = .static ∧ m.static = true) := by
  obtain ⟨kind, ref, v, args, result, label⟩ := c
  unfold target at h
  dsimp only at h ⊢
  cases hsubsig : ref.subsig? with
  | none =>
    rw [hsubsig] at h
    exact nomatch h
  | some subsig =>
    rw [hsubsig] at h
    dsimp only at h
    cases kind with
    | static =>
      cases hcls : ref.cls with
      | none =>
        rw [hcls] at h
        exact nomatch h
      | some type =>
        rw [hcls] at h
        obtain ⟨m, hm, hstatic⟩ := (Option.any_eq_true _ _).mp (of_require_eq_ok h).2
        exact ⟨m, hm, fun _ => ⟨rfl, hstatic⟩⟩
    | special =>
      cases hcls : ref.cls with
      | none =>
        rw [hcls] at h
        exact nomatch h
      | some type =>
        rw [hcls] at h
        obtain ⟨m, hm, hconcrete⟩ := (Option.any_eq_true _ _).mp (of_require_eq_ok h).2
        exact ⟨m, hm, fun habstract => by simp [habstract] at hconcrete⟩
    | virtual | interface =>
      cases recv with
      | none => exact nomatch h
      | some type =>
        obtain ⟨m, hm, -, hconcrete⟩ := hmemo type subsig id h
        exact ⟨m, hm, fun habstract => nomatch habstract.symm.trans hconcrete⟩
    | other code => exact nomatch h

namespace Program

open Description

variable {p : Program} {c : AnalysisConfig} {r : Result}

/-- A reachable method is an entry or the target of a call. -/
theorem root_or_callee_of_analyze (hr : (p.analyze c).outcome = .ok r) :
    ∀ id ∈ r.calls.reachable, id ∈ p.roots c ∨ ∃ e ∈ r.calls.edges, e.callee = id := by
  obtain ⟨hvalid, s, hs, rfl⟩ := of_analyze_eq_ok hr
  have hrooted := rooted_solve hvalid
  rw [hs] at hrooted
  intro id hid
  obtain ⟨root, hroot, hpath⟩ := hrooted.path id hid
  rcases hpath.cases_tail with rfl | ⟨m, -, M, -, e, he, -, hcallee⟩
  · exact Or.inl hroot
  · exact Or.inr ⟨e, he, hcallee⟩

/-- Entries have bodies. -/
theorem hasBody_of_mem_roots (hr : (p.analyze c).outcome = .ok r) {id : MethodId}
    (hid : id ∈ p.roots c) :
    ∃ m, p.table.method? id = some m ∧ m.hasBody = true := by
  obtain ⟨e, he, rfl⟩ := List.mem_filterMap.mp hid
  obtain ⟨id', m, heq, hm, hbody⟩ := (of_violations_eq_nil (of_analyze_eq_ok hr).1).1 _ he
  obtain rfl := Option.some.inj heq
  exact ⟨m, hm, hbody⟩

/-- An abstract method is the target of a call only if it is static and the call is, and only then
it is reachable. Whenever another call would have to run an abstract method, it finds no target, and
every call that finds none has a diagnostic. -/
theorem analyze_abstract (hp : p.hierarchy.Arises) (hr : (p.analyze c).outcome = .ok r) :
    (∀ e ∈ r.calls.edges, ∃ m, p.table.method? e.callee = some m ∧
      (m.abstract = true → e.kind = .static ∧ m.static = true)) ∧
    (∀ id ∈ r.calls.reachable, ∃ m, p.table.method? id = some m ∧
      (m.abstract = true → m.static = true ∧ ∃ e ∈ r.calls.edges, e.callee = id ∧
        e.kind = .static)) ∧
    (∀ call type id, p.resolve call type = .ok (.ok id) → ∃ m, p.table.method? id = some m ∧
      (m.abstract = true → call.kind = .static ∧ m.static = true)) ∧
    ∀ d ∈ p.dispatched c r.steps,
      (∃ e, p.resolve d.site.call (d.object.bind r.typeOf?) = .ok (.error e) ∧
        ⟨d.site.stmt, d.object, e⟩ ∈ r.diagnostics) ∨
      ∃ e ∈ r.calls.edges, e.site = d.site.stmt ∧
        p.resolve d.site.call (d.object.bind r.typeOf?) = .ok (.ok e.callee) := by
  have hcalls := root_or_callee_of_analyze hr
  have hentries : ∀ id ∈ p.roots c, ∃ m, p.table.method? id = some m ∧ m.hasBody = true := fun _ =>
    hasBody_of_mem_roots hr
  obtain ⟨s, rfl, -, -, -, hbooks⟩ := exists_books_of_analyze hp.declared hr
  have hedges : ∀ e ∈ (Result.ofSolver s).calls.edges, ∃ m, p.table.method? e.callee = some m ∧
      (m.abstract = true → e.kind = .static ∧ m.static = true) := by
    intro e he
    obtain ⟨d, -, htarget, -, hkind⟩ := hbooks.edge e he
    obtain ⟨m, hm, hstatic⟩ := Call.of_answer_target hp.concrete htarget
    refine ⟨m, hm, fun habstract => ?_⟩
    rw [hkind, (hstatic habstract).1]
    exact ⟨rfl, (hstatic habstract).2⟩
  refine ⟨hedges, fun id hid => ?_, fun call type id h => Call.of_answer_target hp.concrete h,
    fun d hd => ?_⟩
  · rcases hcalls id hid with hroot | ⟨e, he, rfl⟩
    · obtain ⟨m, hm, hbody⟩ := hentries id hroot
      refine ⟨m, hm, fun habstract => ?_⟩
      unfold Method.hasBody at hbody
      rw [habstract] at hbody
      exact nomatch hbody
    · obtain ⟨m, hm, hstatic⟩ := hedges e he
      exact ⟨m, hm, fun habstract => ⟨(hstatic habstract).2, e, he, rfl, (hstatic habstract).1⟩⟩
  · rcases hbooks.answered d hd with ⟨e, he⟩ | ⟨m, hm, e, he, hsite, rfl⟩
    · exact Or.inl ⟨e, he, hbooks.mem_diagnostics_iff.mpr ⟨d, hd, he, rfl, rfl⟩⟩
    · exact Or.inr ⟨e, he, hsite, hm⟩

/-- A line is a shape, but it cannot be drawn. Shapes can be cleared by a method that is static and
abstract. -/
def shapes : Description where
  entries := ["<Main: void main()>"]
  classes := [
    ⟨"Shape", "", [], false, true, [],
      [⟨"void draw()", [], false, true, false, [], []⟩,
        ⟨"void clear()", [], true, true, false, [], []⟩]⟩,
    ⟨"Line", "Shape", [], false, false, [], []⟩,
    ⟨"Main", "", [], false, false, [],
      [⟨"void main()", [], true, false, false, [("x", "Shape")], [
        { blank with op := "new", lhs := "x", type := "Line" },
        { blank with op := "invoke", recv := "x", method := "<Shape: void draw()>" },
        { blank with
          op := "invoke", kind := "special", recv := "x", method := "<Shape: void draw()>" },
        { blank with op := "invoke", kind := "static", method := "<Shape: void clear()>" }]⟩]⟩]

/-- The program that `shapes` describes. -/
def shapesProgram : Program := shapes.build.toOption.getD {}

theorem build_shapes : shapes.build = .ok shapesProgram := eq_ok_of_isSome (by decide +kernel) {}

/-- The result of its analysis. -/
def shapesResult : Result :=
  (shapesProgram.analyze {}).outcome.toOption.getD (.ofSolver (.start {} []))

theorem analyze_shapes : (shapesProgram.analyze {}).outcome = .ok shapesResult :=
  eq_ok_of_isSome (by decide +kernel) _

theorem abstract_shapes :
    shapesResult.diagnostics.toList.map (fun x => (x.site.id.serial, x.object)) =
      [(1, some 0), (2, some 0)] ∧
    ∀ e ∈ shapesResult.calls.edges, ∃ m, shapesProgram.table.method? e.callee = some m ∧
      (m.abstract = true → e.kind = .static ∧ m.static = true) :=
  ⟨by decide +kernel, (analyze_abstract (steady_of_build build_shapes).arises analyze_shapes).1⟩

/-- A static call runs an abstract method. -/
theorem exists_abstract_shapes : (shapesProgram.analyze {}).outcome = .ok shapesResult ∧
    ∃ e ∈ shapesResult.calls.edges, e.callee ∈ shapesResult.calls.reachable ∧
      (shapesProgram.table.method? e.callee).any Method.abstract = true :=
  ⟨analyze_shapes, by decide +kernel⟩

end Program

end PointsTo
