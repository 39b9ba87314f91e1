import PointsTo.Proofs.Loading

/-!
# What a description declares

1. A description of a method declares the method that its signature names, unless that method is
   there already (`of_declareMethod`). The bodies that are filled in later are those of the
   descriptions, in order (`Declaring.bodies`, `declareMembers_declaring`).
2. Filling in bodies keeps the headers of methods (`addBodies_headers`), so what is said of a header
   when a method is declared holds of the methods of the program (`build_methods`).
-/

namespace PointsTo

/-- The variables by name after one of them was declared. -/
theorem Method.var?_newVar {m m' : Method} {name : String} {type : Option Ty} {v : Var}
    (h : m.newVar name type = .ok (v, m')) :
    m'.var? name = some v ∧ (∀ n, n ≠ name → m'.var? n = m.var? n) ∧
      (m.var? name = some v ∨ m.var? name = none ∧ v = { name, owner := m.id, type }) := by
  unfold Method.newVar at h
  split at h
  · next v' hv =>
    split_ifs at h
    obtain ⟨rfl, rfl⟩ := Prod.mk.inj (Except.ok.inj h)
    exact ⟨hv, fun n _ => rfl, Or.inl hv⟩
  · next hnone =>
    obtain ⟨rfl, rfl⟩ := Prod.mk.inj (Except.ok.inj h)
    refine ⟨?_, fun n hn => ?_, Or.inr ⟨hnone, rfl⟩⟩
    · unfold Method.var?
      rw [getElem?_insert, if_pos rfl]
    · unfold Method.var?
      rw [getElem?_insert, if_neg hn]

/-! ## Methods of a table -/

/-- All methods of the table have the property. -/
def ClassTable.Methods (q : Method → Prop) (t : ClassTable) : Prop :=
  ∀ id m, t.method? id = some m → q m

namespace ClassTable.Methods

variable {q : Method → Prop} {t t' : ClassTable}

theorem initial : ClassTable.initial.Methods q := by
  intro id m hm
  rw [method?_initial] at hm
  exact nomatch hm

theorem mentionTypes (h : t.Methods q) (types : List Ty) : (t.mentionTypes types).Methods q := by
  intro id m hm
  rw [method?_mentionTypes] at hm
  exact h id m hm

theorem declare (h : t.Methods q) (name : String) (d : ClassDecl) :
    (t.declare name d).Methods q := by
  intro id m hm
  rw [method?_declare] at hm
  exact h id m hm

theorem addField (h : t.Methods q) {on : Ty} {name : String} {type : Option Ty}
    {static : Bool} {f : Field}
    (hok : t.addField on name type static = .ok (f, t')) : t'.Methods q := by
  intro id m hm
  rw [method?_addField hok] at hm
  exact h id m hm

theorem setMethod (h : t.Methods q) {m : Method} (hm : q m) : (t.setMethod m).Methods q := by
  intro id m' hm'
  rw [method?_setMethod] at hm'
  split_ifs at hm'
  · exact Option.some.inj hm' ▸ hm
  · exact h id m' hm'

end ClassTable.Methods

/-! ## Declarations -/

namespace MethodDesc

/-- The method that is described, if the signature can be read. -/
def id? (cls : String) (d : MethodDesc) : Option MethodId :=
  (Signature.readSubsig d.signature.toList).value.toOption.map fun sub => ⟨cls, sub.text⟩

/-- The declaration of the method. -/
def decl (c : ClassDesc) (d : MethodDesc) (sub : Subsig) : MethodDecl :=
  ⟨sub, d.params, d.static, d.abstract || (c.interface && d.body.isEmpty && !d.static), d.native⟩

/-- The description declares the method in the class. -/
def Declares (c : ClassDesc) (d : MethodDesc) (m : Method) : Prop :=
  ∃ sub, (Signature.readSubsig d.signature.toList).value = .ok sub ∧
    Method.ofDecl c.name (d.decl c sub) = .ok m

end MethodDesc

theorem Method.id_ofDecl {cls : String} {d : MethodDecl} {m : Method} (h : ofDecl cls d = .ok m) :
    m.id = ⟨cls, d.sub.text⟩ := by
  obtain ⟨receiver, vars, formals, -, -, -, rfl⟩ := ofDecl_eq h
  rfl

namespace Description

/-- The descriptions of methods with their classes, in order. -/
def methodsOf (cs : List ClassDesc) : List (ClassDesc × MethodDesc) :=
  cs.flatMap fun c => c.methods.map (c, ·)

variable {c : ClassDesc} {t t' : ClassTable} {q : Method → Prop}

theorem declareMethod_eq {d : MethodDesc} {sub : Subsig}
    (hread : (Signature.readSubsig d.signature.toList).value = .ok sub)
    (hnames : ¬ sub.params.length < d.params.length) :
    declareMethod c d t =
      match (t.mentionTypes (Signature.readSubsig d.signature.toList).mentions).addMethod
        (.cls c.name)
        (d.decl c sub) with
      | .error e => .error (.fault e)
      | .ok (m, t) => .ok (m.id, t) := by
  unfold declareMethod
  dsimp only
  rw [hread]
  dsimp only
  rw [if_neg hnames]
  -- with the mentioned types left open, the comparison does not read the text
  generalize (Signature.readSubsig d.signature.toList).mentions = types
  rfl

/-- The method of a description is there already, or is declared. -/
theorem of_declareMethod {d : MethodDesc} {id : MethodId} (ht : t.Declared)
    (h : declareMethod c d t = .ok (id, t')) :
    d.id? c.name = some id ∧ ∃ types, t' = t.mentionTypes types ∨
      ∃ m, d.Declares c m ∧ t' = (t.mentionTypes types).setMethod m := by
  unfold declareMethod at h
  dsimp only at h
  split at h
  · exact nomatch h
  · next sub hsub =>
    have hid : d.id? c.name = some ⟨c.name, sub.text⟩ := by
      unfold MethodDesc.id?
      rw [hsub]
      rfl
    split_ifs at h
    split at h
    · exact nomatch h
    · next m t₁ hok =>
      obtain ⟨rfl, rfl⟩ := Prod.mk.inj (Except.ok.inj h)
      unfold ClassTable.addMethod at hok
      dsimp only at hok
      rw [ClassTable.method?_mentionTypes] at hok
      split at hok
      · next m' hm =>
        obtain ⟨rfl, rfl⟩ := Prod.mk.inj (Except.ok.inj hok)
        rw [ht.id_eq hm]
        exact ⟨hid, _, Or.inl rfl⟩
      · split at hok
        · exact nomatch hok
        · next m' hdecl =>
          obtain ⟨rfl, rfl⟩ := Prod.mk.inj (Except.ok.inj hok)
          rw [Method.id_ofDecl hdecl]
          exact ⟨hid, _, Or.inr ⟨m', ⟨sub, hsub, hdecl⟩, rfl⟩⟩

theorem declareFields_methods {cls : String} {fs : List FieldDesc} :
    ∀ {t : ClassTable}, t.Methods q →
    Yields (ClassTable.Methods q) (declareFields cls fs t) := by
  induction fs with
  | nil => exact fun h => .ok h
  | cons f fs ih =>
    intro t h
    unfold declareFields
    split_ifs
    · exact .error _
    · dsimp only
      split
      · exact .error _
      · next hok => exact ih ((h.mentionTypes _).addField hok)

/-- A table that is loaded, where the methods have the property and the descriptions that were read
are the given ones. -/
structure Declaring (q : Method → Prop) (ds : List (ClassDesc × MethodDesc))
    (r : List (MethodId × MethodDesc) × ClassTable) : Prop where
  loaded : r.2.Loaded
  methods : r.2.Methods q
  bodies : r.1.map (fun b => (some b.1, b.2)) = ds.map fun d => (d.2.id? d.1.name, d.2)

theorem declareMethods_declaring {ds : List MethodDesc} :
    ∀ {t : ClassTable}, t.Loaded → t.Methods q → (∀ d ∈ ds, ∀ m, d.Declares c m → q m) →
    Yields (Declaring q (ds.map (c, ·))) (declareMethods c ds t) := by
  induction ds with
  | nil => exact fun ht hq _ => .ok ⟨ht, hq, rfl⟩
  | cons d ds ih =>
    intro t ht hq hdecl
    unfold declareMethods
    have hstep : Yields (fun r => r.2.Loaded ∧ r.2.Methods q ∧ d.id? c.name = some r.1)
        (declareMethod c d t) := by
      rintro ⟨id, t'⟩ hok
      obtain ⟨hid, types, rfl | ⟨m, hm, rfl⟩⟩ := of_declareMethod ht.declared hok
      · exact ⟨ht.mentionTypes types, hq.mentionTypes types, hid⟩
      · exact ⟨declareMethod_loaded ht _ hok, (hq.mentionTypes types).setMethod
          (hdecl d List.mem_cons_self m hm), hid⟩
    refine hstep.bind fun r hr => ?_
    obtain ⟨ht', hq', hid⟩ := hr
    refine (ih ht' hq' fun d hd => hdecl d (List.mem_cons_of_mem _ hd)).bind fun r' hr' => .ok ?_
    refine ⟨hr'.loaded, hr'.methods, ?_⟩
    rw [List.map_cons, hr'.bodies, List.map_cons, List.map_cons, hid]

theorem declareMembers_declaring {cs : List ClassDesc} :
    ∀ {t : ClassTable}, t.Loaded → t.Methods q →
      (∀ d ∈ methodsOf cs, ∀ m, d.2.Declares d.1 m → q m) →
    Yields (Declaring q (methodsOf cs)) (declareMembers cs t) := by
  induction cs with
  | nil => exact fun ht hq _ => .ok ⟨ht, hq, rfl⟩
  | cons c cs ih =>
    intro t ht hq hdecl
    have hcons : methodsOf (c :: cs) = c.methods.map (c, ·) ++ methodsOf cs := List.flatMap_cons
    rw [hcons] at hdecl ⊢
    unfold declareMembers
    have hfields : Yields (fun t => t.Loaded ∧ t.Methods q) (declareFields c.name c.fields t) :=
      fun t' hok =>
      ⟨declareFields_loaded ht t' hok, declareFields_methods hq t' hok⟩
    refine hfields.bind fun t₁ h₁ => ?_
    obtain ⟨ht₁, hq₁⟩ := h₁
    have hmethods : ∀ d ∈ c.methods, ∀ m, d.Declares c m → q m := fun d hd =>
      hdecl (c, d) (List.mem_append_left _ (List.mem_map_of_mem hd))
    refine (declareMethods_declaring ht₁ hq₁ hmethods).bind fun r hr => ?_
    refine (ih hr.loaded hr.methods fun d hd => hdecl d (List.mem_append_right _ hd)).bind
      fun r' hr' => .ok ?_
    refine ⟨hr'.loaded, hr'.methods, ?_⟩
    rw [List.map_append, hr.bodies, hr'.bodies, List.map_append]

/-! ## Bodies -/

/-- Declaring local variables mentions their types and changes nothing else in the table. -/
theorem info_addLocals {ls : List (String × String)} : ∀ {m : Method} {t : ClassTable},
    Yields (fun r => ∀ name, r.2.info name = t.info name) (addLocals ls m t) := by
  induction ls with
  | nil => exact .ok fun name => rfl
  | cons l ls ih =>
    intro m t
    unfold addLocals
    split_ifs
    · exact .error _
    · dsimp only
      split
      · exact .error _
      · exact fun r hr name => (ih r hr name).trans (ClassTable.info_mentionTypes ..)

/-- Adding statements mentions types and changes nothing else in the table. -/
theorem info_addStmts {ds : List StmtDesc} : ∀ {i : Nat} {m : Method} {t : ClassTable},
    Yields (fun r => ∀ name, r.2.info name = t.info name) (addStmts i ds m t) := by
  induction ds with
  | nil => exact .ok fun name => rfl
  | cons d ds ih =>
    intro i m t
    unfold addStmts
    split
    · exact .error _
    · exact fun r hr name => (ih r hr name).trans (ClassTable.info_mentionTypes ..)

/-- What holds before bodies are filled in and is kept by every body holds after all of them. -/
theorem addBodies_induction {P : List (MethodId × MethodDesc) → ClassTable → Prop}
    (hskip : ∀ {done id d t}, t.method? id = none → P done t → P (done ++ [(id, d)]) t)
    (hfill : ∀ {done id d t m r r'}, t.method? id = some m → P done t →
      addLocals d.locals m t = .ok r →
      addStmts 0 d.body r.1 r.2 = .ok r' → P (done ++ [(id, d)]) (r'.2.setMethod r'.1))
    (bodies : List (MethodId × MethodDesc)) :
    ∀ (done : List (MethodId × MethodDesc)) {t : ClassTable}, P done t →
      Yields (P (done ++ bodies)) (addBodies bodies t) := by
  induction bodies with
  | nil =>
    intro done t h
    rw [List.append_nil]
    exact .ok h
  | cons b bodies ih =>
    obtain ⟨id, d⟩ := b
    intro done t h
    rw [List.append_cons]
    unfold addBodies
    split
    · next hnone => exact ih _ (hskip hnone h)
    · next m hm =>
      have hlocals : Yields (fun r => addLocals d.locals m t = .ok r) (addLocals d.locals m t) :=
        fun r hr => hr
      refine hlocals.bind fun r hr => ?_
      have hstmts : Yields (fun r' => addStmts 0 d.body r.1 r.2 = .ok r')
          (addStmts 0 d.body r.1 r.2) :=
        fun r' hr' => hr'
      exact hstmts.bind fun r' hr' => ih _ (hfill hm h hr hr')

/-- The methods of the second table have the headers of methods of the first one. -/
def KeepsHeaders (t t' : ClassTable) : Prop :=
  ∀ id m', t'.method? id = some m' → ∃ m, t.method? id = some m ∧ m'.header = m.header

/-- A body that is filled in leaves a loaded table with the same headers. -/
theorem fill_loaded {d : MethodDesc} {id : MethodId} {m : Method} {r r' : Method × ClassTable}
    (ht : t.Loaded)
    (hm : t.method? id = some m) (hr : addLocals d.locals m t = .ok r)
    (hr' : addStmts 0 d.body r.1 r.2 = .ok r') :
    (r'.2.setMethod r'.1).Loaded ∧ KeepsHeaders t (r'.2.setMethod r'.1) := by
  have hstart : Growing id m (m, t) := ⟨rfl, ht.methods id m hm, ht, hm⟩
  have hgrown := addStmts_growing (addLocals_growing hstart r hr) r' hr'
  refine ⟨hgrown.loaded.setMethod (hgrown.loaded.declared.body hgrown.declared hgrown.header)
    hgrown.readable, ?_⟩
  intro id' m' hm'
  rw [ClassTable.method?_setMethod] at hm'
  split_ifs at hm' with hid
  · obtain rfl := Option.some.inj hm'
    refine ⟨m, ?_, hgrown.header⟩
    rw [hid, Method.id_eq_of_header_eq hgrown.header, ht.declared.id_eq hm, hm]
  · have hinfo : ∀ name, r'.2.info name = t.info name := fun name =>
      (info_addStmts r' hr' name).trans (info_addLocals r hr name)
    rw [ClassTable.method?_congr (fun name => congrArg ClassInfo.methods (hinfo name)) id'] at hm'
    exact ⟨m', hm', rfl⟩

theorem addBodies_headers {bodies : List (MethodId × MethodDesc)} (ht : t.Loaded) :
    Yields (KeepsHeaders t) (addBodies bodies t) := by
  have hrun : Yields (fun t' => t'.Loaded ∧ KeepsHeaders t t') (addBodies bodies t) := by
    refine addBodies_induction (P := fun _ t' => t'.Loaded ∧ KeepsHeaders t t')
      (fun _ h => h) ?_ bodies []
      ⟨ht, fun id m hm => ⟨m, hm, rfl⟩⟩
    rintro done id d t₁ m r r' hm ⟨ht₁, hkeeps⟩ hr hr'
    obtain ⟨hloaded, hkeeps'⟩ := fill_loaded ht₁ hm hr hr'
    refine ⟨hloaded, fun id' m' hm' => ?_⟩
    obtain ⟨m₁, hm₁, hheader₁⟩ := hkeeps' id' m' hm'
    obtain ⟨m₂, hm₂, hheader₂⟩ := hkeeps id' m₁ hm₁
    exact ⟨m₂, hm₂, hheader₁.trans hheader₂⟩
  exact fun t' hok => (hrun t' hok).2

/-! ## Programs -/

theorem declareClasses_methods {cs : List ClassDesc} : ∀ {t : ClassTable}, t.Methods q →
    Yields (ClassTable.Methods q) (declareClasses cs t) := by
  induction cs with
  | nil => exact fun h => .ok h
  | cons c cs ih =>
    intro t h
    unfold declareClasses
    split_ifs
    · exact .error _
    · exact ih (h.declare _ _)

/-- Classes that are declared have names. -/
theorem name_ne_of_declareClasses {cs : List ClassDesc} : ∀ {t : ClassTable},
    Yields (fun _ => ∀ c ∈ cs, c.name ≠ "") (declareClasses cs t) := by
  induction cs with
  | nil => exact .ok fun c hc => absurd hc List.not_mem_nil
  | cons c cs ih =>
    intro t
    unfold declareClasses
    split_ifs with hname
    · exact .error _
    · exact fun t' hok => List.forall_mem_cons.mpr ⟨hname, ih t' hok⟩

/-- Setting entries mentions types and changes nothing else in the table. -/
theorem info_addEntries {es : List String} : ∀ {p : Program},
    Yields (fun p' => ∀ name, p'.table.info name = p.table.info name) (addEntries es p) := by
  induction es with
  | nil => exact .ok fun name => rfl
  | cons e es ih =>
    intro p
    unfold addEntries
    split
    · exact .error _
    · next m p₁ hlookup =>
      have hp₁ : p₁ = p.mentionTypes (Signature.readSignature e.toList).mentions := by
        rw [← Program.snd_lookup, hlookup]
      subst hp₁
      exact fun p' hok name => (ih p' hok name).trans (ClassTable.info_mentionTypes ..)

/-- What is said of the header when a description declares a method holds of the methods of the
program. -/
theorem build_methods {d : Description}
    (hheader : ∀ {m m' : Method}, m'.header = m.header → q m → q m')
    (hdecl : ∀ c ∈ d.classes, c.name ≠ "" → ∀ md ∈ c.methods, ∀ m, md.Declares c m → q m) :
    Yields (fun p => p.table.Methods q) d.build := by
  unfold build
  have hclasses : Yields (fun t => t.Loaded ∧ t.Methods q ∧ ∀ c ∈ d.classes, c.name ≠ "")
      (declareClasses d.classes .initial) := fun t hok =>
    ⟨declareClasses_loaded .initial t hok, declareClasses_methods .initial t hok,
      name_ne_of_declareClasses t hok⟩
  refine hclasses.bind fun t h => ?_
  obtain ⟨ht, hq, hnames⟩ := h
  refine (declareMembers_declaring ht hq ?_).bind fun r hr => ?_
  · rintro ⟨c, md⟩ hmem m hm
    obtain ⟨c', hc, hmap⟩ := List.mem_flatMap.mp hmem
    obtain ⟨md', hmd, heq⟩ := List.mem_map.mp hmap
    obtain ⟨rfl, rfl⟩ := Prod.mk.inj heq
    exact hdecl c' hc (hnames c' hc) md' hmd m hm
  refine (addBodies_headers hr.loaded).bind fun t' hkeeps p hok id m hm => ?_
  rw [ClassTable.method?_congr (fun name => congrArg ClassInfo.methods (info_addEntries p hok name))
    id] at hm
  obtain ⟨m₀, hm₀, hm⟩ := hkeeps id m hm
  exact hheader hm (hr.methods id m₀ hm₀)

end Description

end PointsTo
