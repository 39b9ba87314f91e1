import PointsTo.Description.Build
import PointsTo.Proofs.Declarations
import PointsTo.Proofs.Signature

/-!
# Programs that were read from a description

The table of such a program arises by declarations, its bodies by adding variables and statements,
and its memory is empty. Its methods are readable: they have a variable for each parameter, and
their subsignatures and those of the calls in them were read from texts
(`Description.build_loaded`).
-/

namespace PointsTo

/-! ## Values of computations that may fail -/

/-- Whatever the computation gives has the property. -/
def Yields {ε α : Type} (p : α → Prop) (x : Except ε α) : Prop := ∀ a, x = .ok a → p a

namespace Yields

variable {ε α β : Type} {p : β → Prop}

theorem ok {b : β} (h : p b) : Yields p (.ok b : Except ε β) := by
  rintro _ ⟨⟩
  exact h

theorem error (e : ε) : Yields p (.error e : Except ε β) := nofun

theorem bind {q : α → Prop} {x : Except ε α} {f : α → Except ε β} (hx : Yields q x)
    (hf : ∀ a, q a → Yields p (f a)) : Yields p (x >>= f) := by
  cases x with
  | error e => exact error e
  | ok a => exact hf a (hx a rfl)

theorem trivial (x : Except ε α) : Yields (fun _ => True) x := fun _ _ => True.intro

theorem bind_any {x : Except ε α} {f : α → Except ε β} (hf : ∀ a, Yields p (f a)) :
    Yields p (x >>= f) :=
  (trivial x).bind fun a _ => hf a

end Yields

/-! ## Readable methods -/

/-- The call has one of the four kinds, and its target was read from a text. -/
def Call.Readable (c : Call) : Prop :=
  (∀ code, c.kind ≠ .other code) ∧ ∃ s : Signature, c.ref = .ofSignature s ∧ s.sub.Plain

/-- The call that an operation makes. -/
def Op.call? : Op → Option Call
  | .call c => some c
  | _ => none

/-- The operation is readable if it is not a call, or a readable one. -/
def Op.Readable (op : Op) : Prop := ∀ c, op = .call c → c.Readable

/-- The method has a variable of its type for each parameter, and what it is called and what it
calls was read from texts. -/
structure Method.Readable (m : Method) : Prop where
  added : m.Added
  formals : m.formals.map Var.type = m.sub.params.map some
  sub : m.sub.Plain
  body : ∀ s ∈ m.body, s.op.Readable

theorem CallKind.ne_other_of_ofText? {text : String} {k : CallKind} (h : ofText? text = some k)
    (code : Int) :
    k ≠ .other code := by
  have hmem := List.mem_of_find?_eq_some h
  rintro rfl
  simp at hmem

namespace StmtDesc

variable {t : ClassTable} {m : Method} {d : StmtDesc}

theorem call_readable (m : Method) (d : StmtDesc) : Yields (fun r => r.1.Readable) (d.call m) := by
  unfold call
  dsimp only
  split
  · next kind hkind =>
    refine .bind (q := fun k => ∀ code, k ≠ CallKind.other code)
      (.ok (CallKind.ne_other_of_ofText? hkind)) fun kind hkind => ?_
    split
    · next target htarget =>
      refine .bind (q := fun s : Signature => s.sub.Plain)
        (.ok (Signature.plain_of_readSignature htarget)) fun target htarget => ?_
      refine .bind_any fun recv => .bind_any fun args => .bind_any fun result => .ok ?_
      exact ⟨hkind, target, rfl, htarget⟩
    · exact .error _
  · exact .error _

theorem operation_readable (t : ClassTable) (m : Method) (d : StmtDesc) :
    Yields (fun r => r.1.Readable) (d.operation t m) := by
  have hother : ∀ {op : Op} {types : List Ty}, op.call? = none →
      Yields (fun r : Op × List Ty => r.1.Readable) (.ok (op, types) : Except StmtError _) := by
    intro op types h
    refine .ok ?_
    rintro c rfl
    exact nomatch h
  unfold operation
  dsimp only
  generalize (if d.cls ≠ "" then [Ty.cls d.cls] else []) = classes
  split
  -- new, assign, cast
  · exact .bind_any fun x => .bind_any fun type => hother rfl
  · exact .bind_any fun x => .bind_any fun y => hother rfl
  · exact .bind_any fun x => .bind_any fun y => .bind_any fun type => hother rfl
  -- load and store, of a static field or of an object
  · split_ifs
    · exact .bind_any fun x => .bind_any fun f => hother rfl
    · exact .bind_any fun b => .bind_any fun x => .bind_any fun f => hother rfl
  · split_ifs
    · exact .bind_any fun f => .bind_any fun y => hother rfl
    · exact .bind_any fun b => .bind_any fun f => .bind_any fun y => hother rfl
  · exact .bind_any fun x => .bind_any fun b => hother rfl
  · exact .bind_any fun b => .bind_any fun y => hother rfl
  · refine (call_readable m d).bind fun r hr => .ok ?_
    rintro c ⟨⟩
    exact hr
  · exact .bind_any fun y => hother rfl
  · exact .error _

end StmtDesc

/-! ## Loaded tables -/

/-- A table that was filled from a description. -/
structure ClassTable.Loaded (t : ClassTable) : Prop where
  declared : t.Declared
  methods : ∀ id m, t.method? id = some m → m.Readable

namespace ClassTable.Loaded

variable {t t' : ClassTable}

theorem initial : ClassTable.initial.Loaded where
  declared := .initial
  methods id m h := by
    rw [method?_initial] at h
    exact nomatch h

theorem mentionTypes (h : t.Loaded) (types : List Ty) : (t.mentionTypes types).Loaded where
  declared := by
    unfold ClassTable.mentionTypes mentionAll
    induction types.filterMap Ty.className? generalizing t with
    | nil => exact h.declared
    | cons n ns ih =>
      exact ih ⟨h.declared.mention n, fun id m hm => h.methods id m
        (by rwa [method?_mention] at hm)⟩
  methods id m hm := h.methods id m (by rwa [method?_mentionTypes] at hm)

theorem declare (h : t.Loaded) (name : String) (d : ClassDecl) : (t.declare name d).Loaded where
  declared := h.declared.declare name d
  methods id m hm := h.methods id m (by rwa [method?_declare] at hm)

theorem addField (h : t.Loaded) {on : Ty} {name : String} {type : Option Ty}
    {static : Bool} {f : Field}
    (hok : t.addField on name type static = .ok (f, t')) : t'.Loaded where
  declared := h.declared.addField hok
  methods id m hm := h.methods id m (by rwa [method?_addField hok] at hm)

theorem setMethod {m : Method} (h : t.Loaded) (ht : (t.setMethod m).Declared) (hm : m.Readable) :
    (t.setMethod m).Loaded where
  declared := ht
  methods id m' h' := by
    rw [method?_setMethod] at h'
    split_ifs at h'
    · exact Option.some.inj h' ▸ hm
    · exact h.methods id m' h'

theorem addMethod (h : t.Loaded) {on : Ty} {d : MethodDecl} {m : Method} (hsub : d.sub.Plain)
    (hok : t.addMethod on d = .ok (m, t')) : t'.Loaded := by
  have ht := h.declared.addMethod hok
  rcases addMethod_eq hok with rfl | ⟨cls, hdecl, rfl⟩
  · exact h
  · refine h.setMethod ht ?_
    obtain ⟨receiver, vars, formals, htypes, -, -, rfl⟩ := Method.ofDecl_eq hdecl
    exact ⟨.decl hdecl, htypes, hsub, fun s hs => absurd hs List.not_mem_nil⟩

end ClassTable.Loaded

/-! ## Building a program -/

/-- Looking up a method only mentions types. -/
theorem Program.snd_lookup (p : Program) (signature : String) :
    (p.lookup signature).2 = p.mentionTypes
    (Signature.readSignature signature.toList).mentions := by
  unfold lookup
  dsimp only
  split
  · rfl
  · split <;> rfl

namespace Description

theorem declareClasses_loaded {cs : List ClassDesc} : ∀ {t : ClassTable}, t.Loaded →
    Yields ClassTable.Loaded (declareClasses cs t) := by
  induction cs with
  | nil => exact fun h => .ok h
  | cons c cs ih =>
    intro t h
    unfold declareClasses
    split_ifs
    · exact .error _
    · exact ih (h.declare _ _)

theorem declareFields_loaded {cls : String} {fs : List FieldDesc} : ∀ {t : ClassTable}, t.Loaded →
    Yields ClassTable.Loaded (declareFields cls fs t) := by
  induction fs with
  | nil => exact fun h => .ok h
  | cons f fs ih =>
    intro t h
    unfold declareFields
    split_ifs
    · exact .error _
    · dsimp only
      split
      · exact .error _
      · next hok => exact ih ((h.mentionTypes _).addField hok)

theorem declareMethod_loaded {c : ClassDesc} {d : MethodDesc} {t : ClassTable} (h : t.Loaded) :
    Yields (fun r => r.2.Loaded) (declareMethod c d t) := by
  unfold declareMethod
  dsimp only
  split
  · exact .error _
  · next sub hsub =>
    split_ifs
    · exact .error _
    · split
      · exact .error _
      · next hok => exact .ok ((h.mentionTypes _).addMethod
          (Signature.plain_of_readSubsig hsub) hok)

theorem declareMethods_loaded {c : ClassDesc} {ds : List MethodDesc} :
    ∀ {t : ClassTable}, t.Loaded →
    Yields (fun r => r.2.Loaded) (declareMethods c ds t) := by
  induction ds with
  | nil => exact fun h => .ok h
  | cons d ds ih =>
    intro t h
    unfold declareMethods
    exact (declareMethod_loaded h).bind fun r hr => (ih hr).bind fun r' hr' => .ok hr'

theorem declareMembers_loaded {cs : List ClassDesc} : ∀ {t : ClassTable}, t.Loaded →
    Yields (fun r => r.2.Loaded) (declareMembers cs t) := by
  induction cs with
  | nil => exact fun h => .ok h
  | cons c cs ih =>
    intro t h
    unfold declareMembers
    exact (declareFields_loaded h).bind fun t ht => (declareMethods_loaded ht).bind fun r hr =>
      (ih hr).bind fun r' hr' => .ok hr'

/-- A body is being filled in: the table still has the method `m₀` that it started from. -/
structure Growing (id : MethodId) (m₀ : Method) (r : Method × ClassTable) : Prop where
  header : r.1.header = m₀.header
  readable : r.1.Readable
  loaded : r.2.Loaded
  declared : r.2.method? id = some m₀

variable {id : MethodId} {m₀ : Method}

theorem Growing.mentionTypes {r : Method × ClassTable} (h : Growing id m₀ r) (types : List Ty) :
    Growing id m₀ (r.1, r.2.mentionTypes types) where
  header := h.header
  readable := h.readable
  loaded := h.loaded.mentionTypes types
  declared := by rw [ClassTable.method?_mentionTypes, h.declared]

theorem addLocals_growing {ls : List (String × String)} : ∀ {m : Method} {t : ClassTable},
    Growing id m₀ (m, t) → Yields (Growing id m₀) (addLocals ls m t) := by
  induction ls with
  | nil => exact fun h => .ok h
  | cons l ls ih =>
    intro m t h
    unfold addLocals
    split_ifs
    · exact .error _
    · dsimp only
      split
      · exact .error _
      · next v m' hvar =>
        refine ih (Growing.mentionTypes (r := (m', t)) ⟨?_, ?_, h.loaded, h.declared⟩ _)
        · exact (Method.header_newVar hvar).trans h.header
        · have hadded := h.readable.added.newVar hvar
          obtain ⟨vars, rfl⟩ := Method.newVar_eq hvar
          exact ⟨hadded, h.readable.formals, h.readable.sub, h.readable.body⟩

theorem addStmts_growing {ds : List StmtDesc} : ∀ {i : Nat} {m : Method} {t : ClassTable},
    Growing id m₀ (m, t) → Yields (Growing id m₀) (addStmts i ds m t) := by
  induction ds with
  | nil => exact fun h => .ok h
  | cons d ds ih =>
    intro i m t h
    unfold addStmts
    split
    · exact .error _
    · next op types hop =>
      refine ih (Growing.mentionTypes (r := (m.add op, t)) ⟨h.header, ?_, h.loaded, h.declared⟩ _)
      refine ⟨h.readable.added.add op, h.readable.formals, h.readable.sub, fun s hs => ?_⟩
      rcases List.mem_append.mp hs with hs | hs
      · exact h.readable.body s hs
      · rw [List.mem_singleton.mp hs]
        exact d.operation_readable t m _ hop

theorem addBodies_loaded {bodies : List (MethodId × MethodDesc)} : ∀ {t : ClassTable}, t.Loaded →
    Yields ClassTable.Loaded (addBodies bodies t) := by
  induction bodies with
  | nil => exact fun h => .ok h
  | cons b bodies ih =>
    obtain ⟨id, d⟩ := b
    intro t h
    unfold addBodies
    split
    · exact ih h
    · next m hm =>
      have hstart : Growing id m (m, t) := ⟨rfl, h.methods id m hm, h, hm⟩
      refine (addLocals_growing hstart).bind fun r hr => (addStmts_growing hr).bind fun r hr => ?_
      exact ih (hr.loaded.setMethod (hr.loaded.declared.body hr.declared hr.header) hr.readable)

theorem addEntries_loaded {es : List String} :
    ∀ {p : Program}, p.table.Loaded ∧ p.hierarchy.memo = {} →
    Yields (fun p => p.table.Loaded ∧ p.hierarchy.memo = {}) (addEntries es p) := by
  induction es with
  | nil => exact fun h => .ok h
  | cons e es ih =>
    rintro p ⟨hp, hm⟩
    unfold addEntries
    split
    · exact .error _
    · next m p' hlookup =>
      have hp' : p' = p.mentionTypes (Signature.readSignature e.toList).mentions := by
        rw [← Program.snd_lookup, hlookup]
      subst hp'
      exact ih ⟨hp.mentionTypes _, hm⟩

/-- What a description describes is a loaded table with an empty memory. -/
theorem build_loaded (d : Description) :
    Yields (fun p => p.table.Loaded ∧ p.hierarchy.memo = {}) d.build := by
  unfold build
  refine (declareClasses_loaded .initial).bind fun t ht => ?_
  refine (declareMembers_loaded ht).bind fun r hr => ?_
  exact (addBodies_loaded hr).bind fun t ht => addEntries_loaded ⟨ht, rfl⟩

/-- Nothing was declared after a question, as none was asked. -/
theorem steady_of_build {d : Description} {p : Program} (h : d.build = .ok p) :
    p.hierarchy.Steady := by
  obtain ⟨hp, hm⟩ := d.build_loaded p h
  exact Hierarchy.steady_of_memo_eq hp.declared hm

/-! ## An example -/

/-- A statement of which nothing is given. -/
def blank : StmtDesc := ⟨"", "", "", "", "", "", "", "", "", "", [], ""⟩

/-- Nodes that are linked by a field. A leaf pushes by pushing onto the node that it is given, which
may be itself, so a field may lead back to its object and a method may call itself. -/
def nodes : Description where
  entries := ["<Main: void main()>"]
  classes := [
    ⟨"Node", "", [], false, false, [⟨"next", "Node", false⟩],
      [⟨"Node push(Node)", ["p"], false, false, false, [("r", "Node")], [
        { blank with op := "store", base := "this", field := "next", rhs := "p" },
        { blank with op := "load", lhs := "r", base := "p", field := "next" },
        { blank with op := "return", rhs := "r" }]⟩]⟩,
    ⟨"Leaf", "Node", [], false, false, [],
      [⟨"Node push(Node)", ["p"], false, false, false, [("r", "Node")], [
        { blank with op := "invoke", lhs := "r", recv := "p", method := "<Node: Node push(Node)>",
                     args := ["this"] },
        { blank with op := "return", rhs := "r" }]⟩]⟩,
    ⟨"Main", "", [], false, false, [],
      [⟨"void main()", [], true, false, false, [("a", "Node"), ("b", "Node"), ("c", "Leaf")], [
        { blank with op := "new", lhs := "a", type := "Node" },
        { blank with op := "new", lhs := "b", type := "Leaf" },
        { blank with op := "assign", lhs := "a", rhs := "b" },
        { blank with op := "invoke", lhs := "b", recv := "a", method := "<Node: Node push(Node)>",
                     args := ["a"] },
        { blank with op := "cast", lhs := "c", rhs := "b", type := "Leaf" }]⟩]⟩]

/-- The program that `nodes` describes. -/
def nodesProgram : Program := nodes.build.toOption.getD {}

theorem eq_ok_of_isSome {ε α : Type} {x : Except ε α} (h : x.toOption.isSome) (d : α) :
    x = .ok (x.toOption.getD d) := by
  cases x with
  | error e => exact nomatch h
  | ok a => rfl

theorem build_nodes : nodes.build = .ok nodesProgram := eq_ok_of_isSome (by decide +kernel) {}

theorem finiteChains_nodes : nodesProgram.table.FiniteChains := by
  refine (ClassTable.finiteChains_iff (steady_of_build build_nodes).declared_table.complete).mpr ?_
  decide +kernel

end Description

end PointsTo
