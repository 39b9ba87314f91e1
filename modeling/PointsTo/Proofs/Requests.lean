import PointsTo.Workbench.Exploration
import PointsTo.Proofs.Monotonicity
import PointsTo.Proofs.Solver.Alike

/-!
# Sequences of requests

A program on a workbench is asked about subtypes, methods and fields, names are looked up in it, and
it is analysed, in any order and as often as one likes. What it remembers from one request cannot be
noticed in the answer to another.

1. Mentioning classes changes no look-up in a table. Hence it changes neither the list of all
   methods (`ClassTable.methods_congr`) nor what is wrong with the program, and not the bound on the
   steps of a run.
2. `Program.Resumes` relates a program to what it has become by requests. The analysis has the same
   outcome on both (`Resumes.outcome_eq`), by running the two solvers side by side.
3. `Program.Replies` says what an operation answers on every such program. Each request replies what
   the program answered in the first place (`Request.replies`), so a sequence does
   (`Request.serveAll_eq`).
-/

namespace PointsTo

open Std (TreeMap)

/-! ## Tables that hold the same -/

namespace ClassTable

variable {t t' : ClassTable} {c : String} {i : ClassInfo}

/-- The classes that declare methods, by name. -/
def owners (t : ClassTable) : List (String × ClassInfo) :=
  t.entries.toList.filter fun e => !e.2.methods.values.isEmpty

theorem methods_eq_owners (t : ClassTable) :
    t.methods = t.owners.flatMap fun e => e.2.methods.values := by
  unfold methods owners
  rw [values_eq_map_toList, List.flatMap_map]
  induction t.entries.toList with
  | nil => rfl
  | cons e es ih =>
    rw [List.flatMap_cons, List.filter_cons, ih]
    cases h : e.2.methods.values.isEmpty with
    | true => rw [List.isEmpty_iff.mp h]; rfl
    | false => rfl

theorem mem_owners : (c, i) ∈ t.owners ↔ t.info c = i ∧ i.methods.values.isEmpty = false := by
  unfold owners info
  rw [List.mem_filter, TreeMap.mem_toList_iff_getElem?_eq_some, Bool.not_eq_true']
  cases t.entries[c]? with
  | some j => rw [Option.some.injEq, Option.getD_some]
  | none =>
    refine iff_of_false (fun h => nomatch h.1) ?_
    rintro ⟨rfl, h⟩
    exact nomatch h

theorem owners_ordered (t : ClassTable) : t.owners.Pairwise fun a b => compare a.1 b.1 = .lt :=
  TreeMap.ordered_keys_toList.filter _

/-- The methods of a table, in their order, are a matter of its look-ups. -/
theorem methods_congr (h : ∀ c, t'.info c = t.info c) : t'.methods = t.methods := by
  -- a class that was mentioned in one of the tables only has no methods, so it is among the owners
  -- of neither
  have hnodup : ∀ t : ClassTable, t.owners.Nodup := fun t =>
    t.owners_ordered.imp fun {a b} hlt heq => by
      rw [heq, Std.ReflOrd.compare_self] at hlt
      exact nomatch hlt
  have hperm : t'.owners.Perm t.owners := by
    refine (List.perm_ext_iff_of_nodup (hnodup t') (hnodup t)).mpr fun e => ?_
    rw [mem_owners, mem_owners, h]
  have howners : t'.owners = t.owners := by
    refine hperm.eq_of_pairwise (fun a b _ _ hab hba => ?_) t'.owners_ordered t.owners_ordered
    exact absurd hba (Std.OrientedCmp.not_lt_of_lt hab)
  rw [methods_eq_owners, methods_eq_owners, howners]

theorem agrees_of_info (h : ∀ c, t'.info c = t.info c) (ht : t.Complete) (ht' : t'.Complete)
    (hf : t.FiniteChains) : t.Agrees t' where
  isSubtype a b := ((SameDeclarations.of_info h).isSubtype_eq ht ht' a b).symm
  resolve c recv := ((SameDeclarations.of_info h).resolve_eq ht ht' hf c recv).symm
  method? id := method?_congr (fun c => congrArg ClassInfo.methods (h c)) id

theorem fieldByName_congr (h : ∀ c, t'.info c = t.info c) (ht : t.Complete)
    (ht' : t'.Complete) (type : Ty)
    (name : String) : t'.fieldByName type name = t.fieldByName type name := by
  unfold fieldByName field?
  simp only [h, (SameDeclarations.of_info h).ancestors_eq ht ht']

end ClassTable

theorem Method.violations_congr {t t' : ClassTable} (h : ∀ c, t'.info c = t.info c) (m : Method) :
    m.violations t' = m.violations t := by
  have hkind : t'.kind = t.kind :=
    funext fun type => ((ClassTable.SameDeclarations.of_info h).kind_eq type).symm
  unfold Method.violations Method.checkStmt Method.checkAllocation
  simp only [h, hkind]

/-! ## Programs after requests -/

namespace Program

/-- The second program is what the first has become by requests: questions were asked about it and
classes were mentioned, and nothing else has changed. -/
structure Resumes (p p' : Program) : Prop where
  steady : p'.hierarchy.Steady
  info : ∀ c, p'.table.info c = p.table.info c
  names : ∀ c ∈ p.table.names, c ∈ p'.table.names
  entries : p'.entries = p.entries

namespace Resumes

variable {p p' : Program}

theorem refl (hp : p.hierarchy.Steady) : p.Resumes p := ⟨hp, fun _ => rfl, fun _ h => h, rfl⟩

theorem mentionTypes (h : p.Resumes p') (types : List Ty) : p.Resumes (p'.mentionTypes types) where
  steady := h.steady.mentionAll _
  info c := (ClassTable.info_mentionTypes ..).trans (h.info c)
  names c hc := (ClassTable.mem_names_mentionAll _).mpr (Or.inr (h.names c hc))
  entries := h.entries

theorem asked (h : p.Resumes p') {memo : Memo} (hm : Memo.Asked p'.table p'.hierarchy.memo memo) :
    p.Resumes { p' with hierarchy := { p'.hierarchy with memo } } where
  steady := h.steady.asked hm
  info := h.info
  names := h.names
  entries := h.entries

/-- Of a class that was there nothing has changed. -/
theorem entry_eq (h : p.Resumes p') {c : String} (hc : c ∈ p.table.names) :
    p'.table.entries[c]? = p.table.entries[c]? := by
  obtain ⟨i, hi⟩ := ClassTable.mem_names.mp hc
  obtain ⟨i', hi'⟩ := ClassTable.mem_names.mp (h.names c hc)
  have hinfo := h.info c
  unfold ClassTable.info at hinfo
  rw [hi, hi', Option.getD_some, Option.getD_some] at hinfo
  rw [hi, hi', hinfo]

theorem same (h : p.Resumes p') : p.table.SameDeclarations p'.table := .of_info h.info

theorem method?_eq (h : p.Resumes p') (id : MethodId) : p'.table.method? id = p.table.method? id :=
  ClassTable.method?_congr (fun c => congrArg ClassInfo.methods (h.info c)) id

theorem violations_eq (h : p.Resumes p') (entries : List (Option MethodId)) :
    ({ p' with entries } : Program).violations = ({ p with entries } : Program).violations := by
  have hmethod : ({ p' with entries } : Program).method? = ({ p with entries } : Program).method? :=
    funext h.method?_eq
  have hentry : ({ p' with entries } : Program).entryViolation? =
      ({ p with entries } : Program).entryViolation? := by
    funext m
    unfold entryViolation?
    rw [hmethod]
  have hmethods : ({ p' with entries } : Program).methods =
      ({ p with entries } : Program).methods :=
    congrArg (Text.sortBy Method.signature) (ClassTable.methods_congr h.info)
  unfold violations
  rw [hentry, hmethods]
  exact congrArg (_ ++ ·) (List.flatMap_congr fun m _ => m.violations_congr h.info)

theorem stepBound_eq (h : p.Resumes p') : p'.stepBound = p.stepBound := by
  unfold stepBound edgeWeight allocations returned instrs
  rw [ClassTable.methods_congr h.info]

section FiniteChains

variable (hp : p.hierarchy.Steady) (hf : p.table.FiniteChains)

include hf

theorem faithful (h : p.Resumes p') : p'.hierarchy.memo.Faithful p'.table :=
  h.steady.faithful (h.same.finiteChains hf)

theorem afterRun (h : p.Resumes p') (c : AnalysisConfig) :
    p.Resumes (p'.afterRun (p'.analyze c)) where
  steady := steady_afterRun h.steady (h.same.finiteChains hf) c
  info := by
    rw [table_afterRun]
    exact h.info
  names := by
    rw [table_afterRun]
    exact h.names
  entries := by
    unfold Program.afterRun
    split
    · exact h.entries
    · exact h.entries

include hp

theorem agrees (h : p.Resumes p') : p.table.Agrees p'.table :=
  ClassTable.agrees_of_info h.info hp.declared_table.complete h.steady.declared_table.complete hf

/-- The analysis has the same outcome after requests as before them. -/
theorem outcome_eq (h : p.Resumes p') (c : AnalysisConfig) :
    (p'.analyze c).outcome = (p.analyze c).outcome := by
  have hchosen : p'.chosen c = p.chosen c := by
    unfold chosen
    rw [h.entries]
  have hroots : p'.roots c = p.roots c := by
    unfold roots
    rw [hchosen]
  obtain ⟨hstop, halike⟩ :=
    solve_alike (h.agrees hp hf) (hp.faithful hf) (h.faithful hf) h.stepBound_eq
    (p.roots c) c.limits
  rw [analyze_eq, analyze_eq, hroots, hchosen, h.violations_eq]
  split_ifs
  · dsimp only
    generalize p'.solve (p.roots c) c.limits = run' at hstop halike ⊢
    generalize p.solve (p.roots c) c.limits = run at hstop halike ⊢
    obtain ⟨why, s⟩ := run
    obtain ⟨why', s'⟩ := run'
    obtain rfl : why' = why := hstop
    obtain ⟨memo', -, -⟩ := halike
    rfl
  · rfl

end FiniteChains

end Resumes

end Program

/-! ## What operations reply -/

/-- A value that must be there. -/
def required {α : Type} : Option α → Except Workbench.Error α
  | some a => .ok a
  | none => .error (.fault .absent)

/-- The method that was looked for, or what is thrown because there is none. -/
def replyOf (x : Target) : Except Workbench.Error MethodId := do
  (← x.mapError Workbench.Error.fault).mapError Workbench.Error.resolution

/-- Whether a type is a subtype of another. Two absent types are equal, and a primitive type is no
subtype of an absent one. -/
def ClassTable.subtype? (t : ClassTable) : Option Ty → Option Ty → Except Workbench.Error Bool
  | some a, some b => .ok (t.isSubtype a b)
  | none, none => .ok true
  | some a, none => if a.isReference then .error (.fault .absent) else .ok false
  | none, some _ => .error (.fault .absent)

/-- On everything that the program has become by requests the operation replies `a`, and leaves such
a program behind. -/
def Program.Replies {α : Type} (p : Program) (x : Workbench.Action α)
    (a : Except Workbench.Error α) : Prop :=
  ∀ w : Workbench, p.Resumes w.program →
    ((x.run.run w).1 : Except Workbench.Error α) = a ∧ p.Resumes (x.run.run w).2.program

namespace Program

variable {α β : Type} {p : Program}

theorem replies_pure (a : α) : p.Replies (pure a) (.ok a) := fun _ h => ⟨rfl, h⟩

theorem replies_throw (e : Workbench.Error) : p.Replies (throw e : Workbench.Action α) (.error e) :=
  fun _ h => ⟨rfl, h⟩

theorem Replies.bind {x : Workbench.Action α} {f : α → Workbench.Action β}
    {a : Except Workbench.Error α}
    {b : α → Except Workbench.Error β} (hx : p.Replies x a) (hf : ∀ v, p.Replies (f v) (b v)) :
    p.Replies (x >>= f) (a >>= b) := by
  intro w hw
  obtain ⟨ha, hw₁⟩ := hx w hw
  have hrun : (x >>= f).run.run w = (ExceptT.bindCont f (x.run.run w).1).run (x.run.run w).2 := rfl
  rw [hrun, ha]
  cases a with
  | ok v => exact hf v _ hw₁
  | error e => exact ⟨rfl, hw₁⟩

theorem Replies.map {x : Workbench.Action α} {a : Except Workbench.Error α} (hx : p.Replies x a)
    (f : α → β) :
    p.Replies (f <$> x) (f <$> a) := by
  cases a with
  | ok a => exact hx.bind (b := fun a => .ok (f a)) fun a => replies_pure (f a)
  | error e => exact hx.bind (b := fun a => .ok (f a)) fun a => replies_pure (f a)

/-- An operation that starts by looking at the workbench. -/
theorem replies_get {f : Workbench → Workbench.Action α} {a : Except Workbench.Error α}
    (h : ∀ w, p.Resumes w.program →
      (((f w).run.run w).1 : Except Workbench.Error α) = a ∧
        p.Resumes ((f w).run.run w).2.program) : p.Replies (get >>= f) a :=
  h

theorem replies_need (o : Option α) : p.Replies (Workbench.need o) (required o) := by
  cases o with
  | some a => exact replies_pure a
  | none => exact replies_throw _

theorem replies_mention (types : List Ty) : p.Replies (Workbench.mention types) (.ok ()) :=
  fun _ hw => ⟨rfl, hw.mentionTypes types⟩

theorem replies_reading (r : Reading α) :
    p.Replies (Workbench.reading r) (r.value.mapError Workbench.Error.signature) := by
  obtain ⟨mentions, value⟩ := r
  cases value with
  | ok a => exact (replies_mention mentions).bind fun _ => replies_pure a
  | error e => exact (replies_mention mentions).bind fun _ => replies_throw _

theorem Resumes.lookup_eq {p' : Program} (h : p.Resumes p') (signature : String) :
    (p'.lookup signature).1 = (p.lookup signature).1 := by
  have hmethod : ∀ (q : Program) (types : List Ty) (id : MethodId),
      (q.mentionTypes types).method? id = q.table.method? id :=
        fun _ _ _ => ClassTable.method?_mentionTypes ..
  unfold lookup
  dsimp only
  cases (Signature.readSignature signature.toList).value with
  | error e => rfl
  | ok s =>
    dsimp only
    rw [hmethod, hmethod, h.method?_eq]
    cases p.table.method? ⟨s.cls, s.sub.text⟩ <;> rfl

theorem replies_findMethod (signature : String) :
    p.Replies (Workbench.findMethod signature)
      ((p.lookup signature).1.mapError Workbench.Error.lookup) := by
  unfold Workbench.findMethod
  refine replies_get fun w hw => ?_
  have hprogram : p.Resumes (w.program.lookup signature).2 := by
    rw [snd_lookup]
    exact hw.mentionTypes _
  rw [← hw.lookup_eq]
  generalize w.program.lookup signature = r at hprogram ⊢
  obtain ⟨r, p'⟩ := r
  cases r with
  | ok m => exact ⟨rfl, hprogram⟩
  | error e => exact ⟨rfl, hprogram⟩

theorem replies_fieldByName (hp : p.hierarchy.Steady) (type : Option Ty) (name : String) :
    p.Replies (Workbench.fieldByName type name)
      (do return p.table.fieldByName (← required type) name) := by
  unfold Workbench.fieldByName Workbench.table
  refine replies_get fun w hw => ?_
  have hfield := ClassTable.fieldByName_congr hw.info hp.declared_table.complete
    hw.steady.declared_table.complete
  cases type with
  | some type => exact ⟨congrArg Except.ok (hfield type name), hw⟩
  | none => exact ⟨rfl, hw⟩

theorem replies_primitive (name : String) : p.Replies (Workbench.primitive name)
    (match Prim.ofName? name with
      | some b => .ok (.prim b)
      | none => .error (.fault (.notPrimitive name))) := by
  unfold Workbench.primitive
  cases Prim.ofName? name with
  | some b => exact replies_pure _
  | none => exact replies_throw _

section FiniteChains

variable (hp : p.hierarchy.Steady) (hf : p.table.FiniteChains)

include hf

theorem replies_ask {q : ClassTable → StateM Memo α} {a : α}
    (hq : ∀ p', p.Resumes p' → Memo.Answers p'.table (q p'.table) a) : p.Replies (Workbench.ask q)
    (.ok a) := by
  intro w hw
  obtain ⟨memo, hrun, hasked⟩ := hq _ hw _ (hw.faithful hf)
  have hask : (Workbench.ask q).run.run
      w = (.ok ((q w.program.table).run w.program.hierarchy.memo).1,
    { w with program.hierarchy.memo := ((q w.program.table).run w.program.hierarchy.memo).2 }) :=
      rfl
  rw [hask, hrun]
  exact ⟨rfl, hw.asked hasked⟩

theorem replies_askTarget {q : ClassTable → StateM Memo Target} {x : Target}
    (hq : ∀ p', p.Resumes p' → Memo.Answers p'.table (q p'.table) x) :
    p.Replies (Workbench.askTarget q) (replyOf x) := by
  refine (replies_ask hf hq).bind (b := replyOf) fun x => ?_
  obtain f | e | m := x
  · exact replies_throw _
  · exact replies_throw _
  · exact replies_pure m

include hp

theorem replies_isSubtype (sub sup : Option Ty) :
    p.Replies (Workbench.isSubtype sub sup) (p.table.subtype? sub sup) := by
  unfold Workbench.isSubtype
  rcases sub with _ | a <;> rcases sup with _ | b
  · exact replies_pure true
  · exact replies_throw _
  · unfold ClassTable.subtype?
    dsimp only
    split_ifs
    · exact replies_throw _
    · exact replies_pure false
  · refine replies_ask hf fun p' h => ?_
    rw [← (h.agrees hp hf).isSubtype]
    exact Memo.isSubtype_answers _ a b

theorem replies_resolveVirtual (type : Option Ty) (subsig : String) :
    p.Replies (Workbench.resolveVirtual type subsig)
      (do replyOf (p.table.resolveVirtual (← required type) subsig)) := by
  refine (replies_need type).bind fun type => replies_askTarget hf fun p' h => ?_
  rw [h.same.resolveVirtual_eq hp.declared_table.complete h.steady.declared_table.complete
    fun c _ => hf.apply c]
  exact Memo.resolveVirtual_answers _ type subsig

theorem replies_resolveMethod (type : Option Ty) (subsig : String) :
    p.Replies (Workbench.resolveMethod type subsig)
      (do replyOf (p.table.resolveMethod (← required type) subsig)) := by
  refine (replies_need type).bind fun type => replies_askTarget hf fun p' h => ?_
  rw [h.same.resolveMethod_eq hp.declared_table.complete h.steady.declared_table.complete
    fun c _ => hf.apply c]
  exact Memo.resolveMethod_answers _ type subsig

theorem replies_analyze (entries : List MethodId) (limits : Limits) :
    p.Replies (Workbench.analyze entries limits)
      ((p.analyze { entries := entries.map some, limits }).outcome.mapError
        Workbench.Error.analysis) := by
  unfold Workbench.analyze
  refine replies_get fun w hw => ?_
  -- the reply is that of the first program, the program left behind that of the present one
  have houtcome := hw.outcome_eq hp hf { entries := entries.map some, limits }
  have hafter := hw.afterRun hf { entries := entries.map some, limits }
  rw [← houtcome]
  dsimp only
  generalize w.program.analyze { entries := entries.map some, limits } = run at hafter ⊢
  cases run.outcome with
  | ok r => exact ⟨rfl, hafter⟩
  | error e => exact ⟨rfl, hafter⟩

end FiniteChains

end Program

/-! ## Requests -/

/-- What may be asked of a program again and again. Types that are asked about may be absent. -/
inductive Request
  | isSubtype (sub sup : Option Ty)
  | resolveVirtual (type : Option Ty) (subsig : String)
  | resolveMethod (type : Option Ty) (subsig : String)
  | fieldByName (type : Option Ty) (name : String)
  | classNamed (name : String)
  | typeNamed (name : String)
  | primitive (name : String)
  | arrayOf (elem : Option Ty)
  | readSignature (text : String)
  | readSubsig (text : String)
  | findMethod (signature : String)
  | analyze (entries : List MethodId) (limits : Limits)

/-- What a request may be answered. -/
inductive Answer
  | truth (b : Bool)
  | method (m : MethodId)
  | field (f : Option Field)
  | type (type : Ty)
  | signature (s : Signature)
  | subsig (s : Subsig)
  | result (r : Result)

namespace Request

/-- The operation of a request. -/
def action : Request → Workbench.Action Answer
  | isSubtype sub sup => .truth <$> Workbench.isSubtype sub sup
  | resolveVirtual type subsig => .method <$> Workbench.resolveVirtual type subsig
  | resolveMethod type subsig => .method <$> Workbench.resolveMethod type subsig
  | fieldByName type name => .field <$> Workbench.fieldByName type name
  | classNamed name => .type <$> Workbench.classNamed name
  | typeNamed name => .type <$> Workbench.typeNamed name
  | primitive name => .type <$> Workbench.primitive name
  | arrayOf elem => .type <$> Workbench.arrayOf elem
  | readSignature text => .signature <$> Workbench.reading (Signature.readSignature text.toList)
  | readSubsig text => .subsig <$> Workbench.reading (Signature.readSubsig text.toList)
  | findMethod signature => .method <$> Workbench.findMethod signature
  | analyze entries limits => .result <$> Workbench.analyze entries limits

/-- Serves a request. -/
def serve (r : Request) (w : Workbench) : Except Workbench.Error Answer × Workbench :=
  r.action.run.run w

/-- Serves requests, one after the other. -/
def serveAll : List Request → Workbench → List (Except Workbench.Error Answer) × Workbench
  | [], w => ([], w)
  | r :: rs, w =>
    let (a, w) := r.serve w
    let (as, w) := serveAll rs w
    (a :: as, w)

/-- The answer that is found without a memory: questions go to the table itself, and the analysis is
run on the program as it is given. -/
def answer (p : Program) : Request → Except Workbench.Error Answer
  | isSubtype sub sup => .truth <$> p.table.subtype? sub sup
  | resolveVirtual type subsig => .method <$> do
    replyOf (p.table.resolveVirtual (← required type) subsig)
  | resolveMethod type subsig => .method <$> do
    replyOf (p.table.resolveMethod (← required type) subsig)
  | fieldByName type name => .field <$> do return p.table.fieldByName (← required type) name
  | classNamed name => .ok (.type (.cls name))
  | typeNamed name => .ok (.type (.ofName name))
  | primitive name => .type <$>
    match Prim.ofName? name with
    | some b => .ok (.prim b)
    | none => .error (.fault (.notPrimitive name))
  | arrayOf elem => .type <$> do return .array (← required elem)
  | readSignature text =>
    .signature <$> (Signature.readSignature text.toList).value.mapError Workbench.Error.signature
  | readSubsig text =>
    .subsig <$> (Signature.readSubsig text.toList).value.mapError Workbench.Error.signature
  | findMethod signature => .method <$> (p.lookup signature).1.mapError Workbench.Error.lookup
  | analyze entries limits =>
    .result <$> (p.analyze { entries := entries.map some, limits }).outcome.mapError
      Workbench.Error.analysis

section FiniteChains

variable {p : Program} (hp : p.hierarchy.Steady) (hf : p.table.FiniteChains)

include hp hf

open Program in
/-- A request replies what the program answered in the first place. -/
theorem replies (r : Request) : p.Replies r.action (r.answer p) := by
  cases r with
  | isSubtype sub sup => exact (replies_isSubtype hp hf sub sup).map _
  | resolveVirtual type subsig => exact (replies_resolveVirtual hp hf type subsig).map _
  | resolveMethod type subsig => exact (replies_resolveMethod hp hf type subsig).map _
  | fieldByName type name => exact (replies_fieldByName hp type name).map _
  | classNamed name => exact ((replies_mention _).bind fun _ => replies_pure _).map _
  | typeNamed name => exact ((replies_mention _).bind fun _ => replies_pure _).map _
  | primitive name => exact (replies_primitive name).map _
  | arrayOf elem => exact ((replies_need elem).bind fun elem => replies_pure (Ty.array elem)).map _
  | readSignature text => exact (replies_reading _).map _
  | readSubsig text => exact (replies_reading _).map _
  | findMethod signature => exact (replies_findMethod signature).map _
  | analyze entries limits => exact (replies_analyze hp hf entries limits).map _

/-- Requests are answered as if each of them were the first, and the program is what it was. -/
theorem serveAll_eq (rs : List Request) : ∀ {w : Workbench}, p.Resumes w.program →
    (serveAll rs w).1 = rs.map (answer p) ∧ p.Resumes (serveAll rs w).2.program := by
  induction rs with
  | nil => exact fun hw => ⟨rfl, hw⟩
  | cons r rs ih =>
    intro w hw
    obtain ⟨hanswer, hserved⟩ := r.replies hp hf w hw
    obtain ⟨hanswers, hrest⟩ := ih hserved
    exact ⟨congrArg₂ List.cons hanswer hanswers, hrest⟩

end FiniteChains

/-- The memory cannot be noticed. On a workbench with a program that was declared and not asked
about, as every loaded one is, each request of a sequence is answered as it would be without a
memory on the program as it was, also an analysis. No class that was there changes, none is
declared, and an analysis with any configuration has the same outcome afterwards. -/
theorem answers_as_fresh :
    (∀ (d : Description) (p : Program), d.build = .ok p → p.table.Declared ∧
      p.hierarchy.memo = {}) ∧
    ∀ w : Workbench, w.program.table.Declared → w.program.hierarchy.memo = {} →
      w.program.table.FiniteChains →
      ∀ rs : List Request,
        (serveAll rs w).1 = rs.map (answer w.program) ∧
        (∀ c ∈ w.program.table.names,
          (serveAll rs w).2.program.table.entries[c]? = w.program.table.entries[c]?) ∧
        (∀ c, (serveAll rs w).2.program.table.info c = w.program.table.info c) ∧
        ∀ c : AnalysisConfig,
          ((serveAll rs w).2.program.analyze c).outcome = (w.program.analyze c).outcome := by
  refine ⟨fun d p hd => ?_, fun w ht hm hf rs => ?_⟩
  · obtain ⟨hp, hm⟩ := d.build_loaded p hd
    exact ⟨hp.declared, hm⟩
  · have hp : w.program.hierarchy.Steady := Hierarchy.steady_of_memo_eq ht hm
    obtain ⟨hanswers, hafter⟩ := serveAll_eq hp hf rs (.refl hp)
    exact ⟨hanswers, fun c hc => hafter.entry_eq hc, hafter.info, hafter.outcome_eq hp hf⟩

/-- Questions about linked nodes, some of them twice, between two analyses. -/
def nodesRequests : List Request := [
  .isSubtype (some (.array (.cls "Leaf"))) (some (.array (.cls "Node"))),
  .resolveVirtual (some (.cls "Leaf")) "Node pop()",
  .analyze [] {},
  .findMethod "<Leaf: Other pop()>",
  .isSubtype (some (.array (.cls "Leaf"))) (some (.array (.cls "Node"))),
  .resolveVirtual (some (.cls "Leaf")) "Node pop()",
  .analyze [] {}]

open Description in
theorem answers_as_fresh_nodes : (serveAll nodesRequests { program := nodesProgram }).1 =
    [.ok (.truth true), .error (.resolution ⟨.cls "Leaf", "Node pop()", .noImplementation⟩),
      .ok (.result Program.nodesResult), .error (.lookup (.unknown "<Leaf: Other pop()>")),
        .ok (.truth true),
      .error (.resolution ⟨.cls "Leaf", "Node pop()", .noImplementation⟩),
        .ok (.result Program.nodesResult)] := by
  obtain ⟨hfresh, hserve⟩ := answers_as_fresh
  obtain ⟨ht, hm⟩ := hfresh _ _ build_nodes
  obtain ⟨hanswers, -⟩ := hserve { program := nodesProgram } ht hm finiteChains_nodes nodesRequests
  obtain ⟨hsubtype, hvirtual, hlookup⟩ :
      nodesProgram.table.isSubtype (.array (.cls "Leaf")) (.array (.cls "Node")) = true ∧
      nodesProgram.table.resolveVirtual (.cls "Leaf") "Node pop()" =
        .ok (.error ⟨.cls "Leaf", "Node pop()", .noImplementation⟩) ∧
      (nodesProgram.lookup "<Leaf: Other pop()>").1 = .error (.unknown "<Leaf: Other pop()>") := by
    decide +kernel
  have hanalyze := Program.analyze_nodes
  rw [hanswers]
  -- from here on the program must not be computed
  generalize nodesProgram = p at hsubtype hvirtual hlookup hanalyze
  generalize Program.nodesResult = r at hanalyze
  unfold nodesRequests
  simp only [List.map_cons, List.map_nil, answer, ClassTable.subtype?, required, bind,
    Except.bind, hsubtype,
    hvirtual, hlookup, hanalyze]
  rfl

end Request

end PointsTo
