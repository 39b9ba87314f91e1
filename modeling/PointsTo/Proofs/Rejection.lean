import PointsTo.Proofs.Members

/-!
# Which descriptions are rejected, and which are not answered

A description that describes no program is rejected with a cause. There is one exception: the
variables that a declaration gives to a method, its receiver and its parameters, are not checked,
and a name that stands for two types is a fault.

1. `Method.ofDecl` declares a method exactly if the names of its variables are `Consistent`.
2. `Settles` follows declarations one by one: they succeed, come to the first clash, or come to
   something that is rejected. It holds of the declaration of one method (`declareMethod_settles`),
   and so of all (`declareMembers_settles`).
3. Bodies and entries are filled in without faults.
-/

namespace PointsTo

/-! ## The variables of a declaration -/

/-- No name stands for two types. -/
def Consistent (vs : List (String × Ty)) : Prop :=
  ∀ name type type', (name, type) ∈ vs → (name, type') ∈ vs → type = type'

/-- The parameters from position `i` on, by name. -/
def Method.formalsFrom (names : List String) (i : Nat) (ts : List Ty) : List (String × Ty) :=
  (ts.zipIdx i).map fun x => (paramName names x.2, x.1)

/-- The variables that a declaration gives to a method: the receiver unless the method is static,
and the parameters. -/
def MethodDecl.variables (cls : String) (d : MethodDecl) : List (String × Ty) :=
  (if d.static then [] else [("this", .cls cls)]) ++ Method.formalsFrom d.names 0 d.sub.params

namespace Method

variable {m m' : Method} {vs : List (String × Ty)}

/-- The method has these variables. -/
structure HasVars (m : Method) (vs : List (String × Ty)) : Prop where
  listed : ∀ name v, m.var? name = some v → ∃ type, v.type = some type ∧ (name, type) ∈ vs
  present : ∀ name type, (name, type) ∈ vs → ∃ v, m.var? name = some v ∧ v.type = some type

theorem HasVars.congr (h : m.HasVars vs) (hvars : m'.vars = m.vars) : m'.HasVars vs := by
  have hvar : ∀ name, m'.var? name = m.var? name := by
    intro name
    unfold var?
    rw [hvars]
  exact ⟨fun name v hv => h.listed name v (hvar name ▸ hv),
    fun name type hmem => hvar name ▸ h.present name type hmem⟩

theorem HasVars.consistent (h : m.HasVars vs) : Consistent vs := by
  intro name type type' hmem hmem'
  obtain ⟨v, hv, htype⟩ := h.present name type hmem
  obtain ⟨v', hv', htype'⟩ := h.present name type' hmem'
  obtain rfl := Option.some.inj (hv.symm.trans hv')
  exact Option.some.inj (htype.symm.trans htype')

theorem HasVars.of_newVar (h : m.HasVars vs) {name : String} {type : Ty} {v : Var}
    (hok : m.newVar name (some type) = .ok (v, m')) : m'.HasVars (vs ++ [(name, type)]) := by
  obtain ⟨hself, hother, hwas⟩ := var?_newVar hok
  obtain ⟨htype, -⟩ := Method.of_newVar hok
  constructor
  · intro n x hx
    by_cases hn : n = name
    · obtain rfl : v = x := Option.some.inj (hself.symm.trans (hn ▸ hx))
      exact ⟨type, htype, hn ▸ List.mem_append_right _ List.mem_cons_self⟩
    · obtain ⟨type', htype', hmem⟩ := h.listed n x ((hother n hn).symm.trans hx)
      exact ⟨type', htype', List.mem_append_left _ hmem⟩
  · intro n type' hmem
    rcases List.mem_append.mp hmem with hmem | hmem
    · obtain ⟨x, hx, htype'⟩ := h.present n type' hmem
      by_cases hn : n = name
      · rw [hn] at hx
        rcases hwas with hv | ⟨hnone, -⟩
        · obtain rfl := Option.some.inj (hv.symm.trans hx)
          exact ⟨v, hn ▸ hself, htype'⟩
        · exact nomatch hnone.symm.trans hx
      · exact ⟨x, (hother n hn).trans hx, htype'⟩
    · obtain ⟨rfl, rfl⟩ := Prod.mk.inj (List.mem_singleton.mp hmem)
      exact ⟨v, hself, htype⟩

theorem of_newVar_eq_error {name : String} {type : Option Ty} {e : Fault}
    (h : m.newVar name type = .error e) :
    ∃ v, m.var? name = some v ∧ v.type ≠ type ∧ e = .redeclared m.id name type v.type := by
  unfold Method.newVar at h
  split at h
  · next v hv =>
    split_ifs at h with htype
    exact ⟨v, hv, htype, (Except.error.inj h).symm⟩
  · exact nomatch h

/-- Another variable can be declared unless its name stands for another type. -/
theorem HasVars.newVar (h : m.HasVars vs) (name : String) (type : Ty) :
    (∃ v m', m.newVar name (some type) = .ok (v, m') ∧ m'.id = m.id ∧
      m'.HasVars (vs ++ [(name, type)])) ∨
      ¬ Consistent (vs ++ [(name, type)]) ∧
        ∃ was, m.newVar name (some type) = .error (.redeclared m.id name (some type) was) := by
  cases hvar : m.newVar name (some type) with
  | ok r => exact Or.inl ⟨r.1, r.2, rfl, id_eq_of_header_eq (header_newVar hvar), h.of_newVar hvar⟩
  | error e =>
    obtain ⟨v, hv, htype, rfl⟩ := of_newVar_eq_error hvar
    obtain ⟨type', htype', hmem⟩ := h.listed name v hv
    refine Or.inr ⟨fun hconsistent => htype ?_, v.type, rfl⟩
    rw [htype', hconsistent name type' type (List.mem_append_left _ hmem)
      (List.mem_append_right _ List.mem_cons_self)]

theorem HasVars.addFormals {names : List String} {ts : List Ty} :
    ∀ {i : Nat} {m : Method} {vs : List (String × Ty)},
    m.HasVars vs →
    (∃ m', Method.addFormals names i ts m = .ok m' ∧ m'.HasVars (vs ++ formalsFrom names i ts)) ∨
      ¬ Consistent (vs ++ formalsFrom names i ts) ∧
        ∃ name now was, Method.addFormals names i ts m = .error
          (.redeclared m.id name now was) := by
  induction ts with
  | nil =>
    intro i m vs h
    exact Or.inl ⟨m, rfl, by rwa [formalsFrom, List.zipIdx_nil, List.map_nil, List.append_nil]⟩
  | cons type ts ih =>
    intro i m vs h
    have hcons : vs ++ formalsFrom names i (type :: ts) =
        (vs ++ [(paramName names i, type)]) ++ formalsFrom names (i + 1) ts := by
      simp [formalsFrom, List.zipIdx_cons]
    rw [hcons]
    unfold Method.addFormals
    rcases h.newVar (paramName names i) type with ⟨v, m₁, hok, hid, hm₁⟩ | ⟨hclash, was, herror⟩
    · rw [hok]
      dsimp only
      have hm₂ : ({ m₁ with formals := m₁.formals ++ [v] } : Method).HasVars _ := hm₁.congr rfl
      rcases ih (i := i + 1) hm₂ with hrest | ⟨hclash, name, now, was, herror⟩
      · exact Or.inl hrest
      · exact Or.inr ⟨hclash, name, now, was, hid ▸ herror⟩
    · rw [herror]
      refine Or.inr ⟨fun hconsistent => hclash ?_, _, _, _, rfl⟩
      exact fun n t t' hmem hmem' => hconsistent n t t' (List.mem_append_left _ hmem)
        (List.mem_append_left _ hmem')

/-- A method can be declared exactly if the names of its variables are consistent. -/
theorem ofDecl_cases (cls : String) (d : MethodDecl) :
    Consistent (d.variables cls) ∧ (∃ m, ofDecl cls d = .ok m) ∨
      ¬ Consistent (d.variables cls) ∧
        ∃ name now was, ofDecl cls d = .error (.redeclared ⟨cls, d.sub.text⟩ name now was) := by
  have hempty : HasVars
      { cls, sub := d.sub, static := d.static, abstract := d.abstract, native := d.native } [] := by
    refine ⟨fun name v hv => ?_, fun name type hmem => absurd hmem List.not_mem_nil⟩
    unfold var? at hv
    simp at hv
  unfold ofDecl MethodDecl.variables
  dsimp only
  by_cases hstatic : d.static = true
  · rw [if_pos hstatic, if_pos hstatic]
    rcases hempty.addFormals with ⟨m, hok, hm⟩ | hclash
    · exact Or.inl ⟨hm.consistent, m, hok⟩
    · exact Or.inr hclash
  · rw [if_neg hstatic, if_neg hstatic]
    rcases hempty.newVar "this" (.cls cls) with ⟨v, m₁, hok, hid, hm₁⟩ | ⟨hclash, -⟩
    · rw [hok]
      dsimp only
      have hm₂ : ({ m₁ with receiver := some v } : Method).HasVars _ := hm₁.congr rfl
      rcases hm₂.addFormals with ⟨m, hok, hm⟩ | ⟨hclash, name, now, was, herror⟩
      · exact Or.inl ⟨hm.consistent, m, hok⟩
      · have hid' : ({ m₁ with receiver := some v } : Method).id = ⟨cls, d.sub.text⟩ := hid
        exact Or.inr ⟨hclash, name, now, was, hid' ▸ herror⟩
    · exact absurd (by simp +contextual [Consistent]) hclash

end Method

/-! ## Clashes -/

/-- The signature of the method can be read, and no more parameters are named than it has. -/
def MethodDesc.Fit (d : MethodDesc) : Prop :=
  ∃ sub, (Signature.readSubsig d.signature.toList).value = .ok sub ∧
    d.params.length ≤ sub.params.length

namespace Description

/-- Among the declarations there is a first one of a method that is not known, and a name stands for
two types in it. -/
def ClashesFrom (known : MethodId → Prop) (ds : List (ClassDesc × MethodDesc)) : Prop :=
  ∃ before c d after sub, ds = before ++ (c, d) :: after ∧
    (Signature.readSubsig d.signature.toList).value = .ok sub ∧
    ¬ Consistent ((d.decl c sub).variables c.name) ∧
    ¬ known ⟨c.name, sub.text⟩ ∧ ∀ x ∈ before, x.2.id? x.1.name ≠ some ⟨c.name, sub.text⟩

variable {known known' : MethodId → Prop} {ds ds' : List (ClassDesc × MethodDesc)} {c : ClassDesc}
  {d : MethodDesc}

theorem not_clashesFrom_nil : ¬ ClashesFrom known [] := by
  rintro ⟨before, c, d, after, sub, h, -⟩
  exact absurd h (by simp)

theorem clashesFrom_congr (h : ∀ id, known id ↔ known' id) :
    ClashesFrom known ds ↔ ClashesFrom known' ds := by
  rw [show known = known' from funext fun id => propext (h id)]

theorem clashesFrom_singleton {sub : Subsig}
    (hread : (Signature.readSubsig d.signature.toList).value = .ok sub) :
    ClashesFrom known [(c, d)] ↔ ¬ Consistent ((d.decl c sub).variables c.name) ∧
      ¬ known ⟨c.name, sub.text⟩ := by
  constructor
  · rintro ⟨before, c', d', after, sub', heq, hread', hclash, hunknown, -⟩
    cases before with
    | nil =>
      obtain ⟨rfl, rfl⟩ := Prod.mk.inj (List.cons.inj heq).1
      obtain rfl := Except.ok.inj (hread.symm.trans hread')
      exact ⟨hclash, hunknown⟩
    | cons x before => exact absurd (congrArg List.length heq) (by simp)
  · rintro ⟨hclash, hunknown⟩
    exact ⟨[], c, d, [], sub, rfl, hread, hclash, hunknown, fun x hx => absurd hx List.not_mem_nil⟩

/-- What was declared before is known to what is declared later. -/
theorem clashesFrom_append : ClashesFrom known (ds ++ ds') ↔
    ClashesFrom known ds ∨
      ClashesFrom (fun id => known id ∨ ∃ x ∈ ds, x.2.id? x.1.name = some id) ds' := by
  constructor
  · rintro ⟨before, c, d, after, sub, heq, hread, hclash, hunknown, hfirst⟩
    rcases List.append_eq_append_iff.mp heq with ⟨rest, rfl, rfl⟩ | ⟨rest, rfl, hrest⟩
    · refine Or.inr ⟨rest, c, d, after, sub, rfl, hread, hclash, ?_, fun x hx => ?_⟩
      · rintro (hknown | ⟨x, hx, hid⟩)
        · exact hunknown hknown
        · exact hfirst x (List.mem_append_left _ hx) hid
      · exact hfirst x (List.mem_append_right _ hx)
    · cases rest with
      | nil =>
        refine Or.inr ⟨[], c, d, after, sub, hrest.symm, hread, hclash, ?_,
          fun x hx => absurd hx List.not_mem_nil⟩
        rintro (hknown | ⟨x, hx, hid⟩)
        · exact hunknown hknown
        · exact hfirst x (by simpa using hx) hid
      | cons y rest =>
        obtain ⟨rfl, rfl⟩ := List.cons.inj hrest
        exact Or.inl ⟨before, c, d, rest, sub, rfl, hread, hclash, hunknown, hfirst⟩
  · rintro (⟨before, c, d, after, sub, rfl, hread, hclash, hunknown, hfirst⟩ |
      ⟨before, c, d, after, sub, rfl, hread, hclash, hunknown, hfirst⟩)
    · exact ⟨before, c, d, after ++ ds', sub, by simp, hread, hclash, hunknown, hfirst⟩
    · refine ⟨ds ++ before, c, d, after, sub, by simp, hread, hclash,
        fun hknown => hunknown (Or.inl hknown), fun x hx => ?_⟩
      rcases List.mem_append.mp hx with hx | hx
      · exact fun hid => hunknown (Or.inr ⟨x, hx, hid⟩)
      · exact hfirst x hx

/-! ## Declarations, one by one -/

/-- The method is in the table. -/
def Knows (t : ClassTable) (id : MethodId) : Prop := (t.method? id).isSome

variable {α β : Type} {t t' : ClassTable} {table : α → ClassTable} {table' : β → ClassTable}

/-- What comes of declarations that start from a table. If they are all made then none clashes and
the table knows them. A fault comes from the first clash. Any other error means that not everything
is fit to be declared. -/
def Settles (table : α → ClassTable) (t : ClassTable) (ds : List (ClassDesc × MethodDesc))
    (fit : Prop) :
    Except BuildError α → Prop
  | .ok r => ¬ ClashesFrom (Knows t) ds ∧
      ∀ id, Knows (table r) id ↔ Knows t id ∨ ∃ x ∈ ds, x.2.id? x.1.name = some id
  | .error (.fault f) =>
    ClashesFrom (Knows t) ds ∧ ∃ id name now was, f = .redeclared id name now was
  | .error _ => ¬ fit

theorem Settles.map {x : Except BuildError α} {g : α → β} {fit : Prop}
    (hx : Settles table t ds fit x)
    (hg : ∀ r, table' (g r) = table r) : Settles table' t ds fit (x >>= fun r => .ok (g r)) := by
  cases x with
  | error e => cases e <;> exact hx
  | ok r =>
    refine ⟨hx.1, fun id => ?_⟩
    rw [hg]
    exact hx.2 id

/-- Declarations that follow one another. -/
theorem Settles.bind {x : Except BuildError α} {f : α → Except BuildError β} {fit fit' : Prop}
    (hx : Settles table t ds fit x) (hf : ∀ r, Settles table' (table r) ds' fit' (f r)) :
    Settles table' t (ds ++ ds') (fit ∧ fit') (x >>= f) := by
  cases x with
  | error e =>
    cases e with
    | fault f => exact ⟨clashesFrom_append.mpr (Or.inl hx.1), hx.2⟩
    | _ => exact fun hfit => hx hfit.1
  | ok r =>
    have hr := hf r
    obtain ⟨hclash, hknows⟩ := hx
    have hrest : ClashesFrom (Knows (table r)) ds' ↔ ClashesFrom (Knows t) (ds ++ ds') := by
      rw [clashesFrom_append, or_iff_right hclash]
      exact clashesFrom_congr hknows
    show Settles table' t (ds ++ ds') (fit ∧ fit') (f r)
    cases hfr : f r with
    | error e =>
      rw [hfr] at hr
      cases e with
      | fault f => exact ⟨hrest.mp hr.1, hr.2⟩
      | _ => exact fun hfit => hr hfit.2
    | ok r' =>
      rw [hfr] at hr
      refine ⟨mt hrest.mpr hr.1, fun id => (hr.2 id).trans ?_⟩
      simp only [hknows id, or_assoc, List.mem_append, or_and_right, exists_or]

/-- Nothing is declared. -/
theorem settles_ok {r : α} (h : ∀ id, Knows (table r) id ↔ Knows t id) (fit : Prop) :
    Settles table t [] fit (.ok r) :=
  ⟨not_clashesFrom_nil, fun id => by simp [h id]⟩

/-- A method whose description can be read is there already, or is declared, or has clashing
names. -/
theorem addMethod_settles {sub : Subsig}
    (hread : (Signature.readSubsig d.signature.toList).value = .ok sub)
    (types : List Ty) (fit : Prop) :
    Settles Prod.snd t [(c, d)] fit
      (match (t.mentionTypes types).addMethod (.cls c.name) (d.decl c sub) with
        | .error e => .error (.fault e)
        | .ok (m, t) => .ok (m.id, t)) := by
  have hid : ∀ id, (∃ x ∈ [(c, d)], x.2.id? x.1.name = some id) ↔ id = ⟨c.name, sub.text⟩ := by
    intro id
    simp [MethodDesc.id?, hread, Except.toOption, eq_comm]
  have hsub : (d.decl c sub).sub = sub := rfl
  unfold ClassTable.addMethod
  dsimp only
  rw [hsub, ClassTable.method?_mentionTypes]
  cases hm : t.method? ⟨c.name, sub.text⟩ with
  | some m =>
    have hknows : Knows t ⟨c.name, sub.text⟩ := by rw [Knows, hm]; rfl
    refine ⟨fun hclash => ((clashesFrom_singleton hread).mp hclash).2 hknows, fun id => ?_⟩
    rw [hid]
    dsimp only
    rw [Knows, ClassTable.method?_mentionTypes]
    refine (or_iff_left_of_imp ?_).symm
    rintro rfl
    exact hknows
  | none =>
    have hunknown : ¬ Knows t ⟨c.name, sub.text⟩ := by rw [Knows, hm]; exact Bool.false_ne_true
    dsimp only
    rcases Method.ofDecl_cases c.name (d.decl c sub) with
      ⟨hconsistent, m, hok⟩ | ⟨hclash, name, now, was, herror⟩
    · rw [hok]
      refine ⟨fun hclash => ((clashesFrom_singleton hread).mp hclash).1 hconsistent, fun id => ?_⟩
      rw [hid]
      dsimp only
      rw [Knows, ClassTable.method?_setMethod, Method.id_ofDecl hok, hsub,
        ClassTable.method?_mentionTypes]
      split_ifs with heq
      · simp [heq]
      · simp [heq, Knows]
    · rw [herror]
      exact ⟨(clashesFrom_singleton hread).mpr ⟨hclash, hunknown⟩, _, _, _, _, rfl⟩

theorem declareMethod_settles (c : ClassDesc) (d : MethodDesc) (t : ClassTable) :
    Settles Prod.snd t [(c, d)] d.Fit (declareMethod c d t) := by
  cases hread : (Signature.readSubsig d.signature.toList).value with
  | error e =>
    unfold declareMethod
    dsimp only
    rw [hread]
    rintro ⟨sub, hread', -⟩
    exact nomatch hread.symm.trans hread'
  | ok sub =>
    by_cases hnames : sub.params.length < d.params.length
    · unfold declareMethod
      dsimp only
      rw [hread]
      dsimp only
      rw [if_pos hnames]
      rintro ⟨sub', hread', hle⟩
      obtain rfl := Except.ok.inj (hread.symm.trans hread')
      exact absurd hle (Nat.not_le.mpr hnames)
    · rw [declareMethod_eq hread hnames]
      generalize (Signature.readSubsig d.signature.toList).mentions = types
      exact addMethod_settles hread types _

theorem declareMethods_settles (c : ClassDesc) (ds : List MethodDesc) (t : ClassTable) :
    Settles Prod.snd t (ds.map (c, ·)) (∀ d ∈ ds, d.Fit) (declareMethods c ds t) := by
  induction ds generalizing t with
  | nil => exact settles_ok (r := ([], t)) (fun id => Iff.rfl) _
  | cons d ds ih =>
    rw [List.map_cons, ← List.singleton_append, List.forall_mem_cons]
    unfold declareMethods
    exact (declareMethod_settles c d t).bind fun r => (ih r.2).map fun r' => rfl

theorem declareFields_settles (cls : String) (fs : List FieldDesc) (t : ClassTable) :
    Settles id t [] (∀ f ∈ fs, f.name ≠ "" ∧ f.type ≠ "") (declareFields cls fs t) := by
  induction fs generalizing t with
  | nil => exact settles_ok (r := t) (fun id => Iff.rfl) _
  | cons f fs ih =>
    unfold declareFields
    by_cases hincomplete : (f.name = "" || f.type = "") = true
    · rw [if_pos hincomplete]
      intro hfit
      obtain ⟨hname, htype⟩ := hfit f List.mem_cons_self
      simp [hname, htype] at hincomplete
    · rw [if_neg hincomplete]
      dsimp only
      split
      · next e herror =>
        unfold ClassTable.addField at herror
        dsimp only at herror
        split at herror <;> exact nomatch herror
      · next f' t₁ hok =>
        have hknows : ∀ id, Knows t₁ id ↔ Knows t id := fun id => by
          rw [Knows, ClassTable.method?_addField hok, ClassTable.method?_mentionTypes]
          rfl
        have hfirst : Settles id t [] (f.name ≠ "" ∧ f.type ≠ "") (.ok t₁) := settles_ok hknows _
        rw [List.forall_mem_cons, ← List.append_nil []]
        exact hfirst.bind ih

/-- The fields of the class have names and types, and the signatures of its methods are in order. -/
def ClassFit (c : ClassDesc) : Prop := (∀ f ∈ c.fields, f.name ≠ "" ∧ f.type ≠ "") ∧
  ∀ d ∈ c.methods, d.Fit

theorem declareMembers_settles (cs : List ClassDesc) (t : ClassTable) :
    Settles Prod.snd t (methodsOf cs) (∀ c ∈ cs, ClassFit c) (declareMembers cs t) := by
  induction cs generalizing t with
  | nil => exact settles_ok (r := ([], t)) (fun id => Iff.rfl) _
  | cons c cs ih =>
    have hcons : methodsOf (c :: cs) = [] ++ (c.methods.map (c, ·) ++ methodsOf cs) :=
      List.flatMap_cons
    rw [hcons, List.forall_mem_cons, ClassFit, and_assoc]
    unfold declareMembers
    refine (declareFields_settles c.name c.fields t).bind fun t₁ => ?_
    exact (declareMethods_settles c c.methods t₁).bind fun r => (ih r.2).map fun r' => rfl

/-! ## Bodies and entries -/

/-- Whatever error the computation ends with has the property. -/
def Raises {ε : Type} (q : ε → Prop) (x : Except ε α) : Prop := ∀ e, x = .error e → q e

theorem raises_ok {ε : Type} {q : ε → Prop} (a : α) : Raises q (.ok a) := by rintro _ ⟨⟩

theorem raises_error {ε : Type} {q : ε → Prop} {e : ε} (h : q e) :
    Raises q (.error e : Except ε α) := by
  rintro _ ⟨⟩
  exact h

theorem Raises.bind {ε : Type} {q : ε → Prop} {x : Except ε α} {f : α → Except ε β}
    (hx : Raises q x)
    (hf : ∀ a, Raises q (f a)) : Raises q (x >>= f) := by
  cases x with
  | error e => exact raises_error (hx e rfl)
  | ok a => exact hf a

end Description

namespace BuildError

/-- The description is rejected: the error is not a fault. -/
def Rejects (e : BuildError) : Prop := ∀ f, e ≠ .fault f

/-- What is said about a description that is rejected. -/
theorem Rejects.message_eq {e : BuildError} (h : e.Rejects) :
    ∃ s, e.message = "invalid program description: " ++ s := by
  cases e with
  | fault f => exact absurd rfl (h f)
  | _ => exact ⟨_, rfl⟩

end BuildError

namespace Description

theorem addLocals_rejects (ls : List (String × String)) (m : Method) (t : ClassTable) :
    Raises BuildError.Rejects (addLocals ls m t) := by
  induction ls generalizing m t with
  | nil => exact raises_ok _
  | cons l ls ih =>
    unfold addLocals
    split_ifs with hvar
    · exact raises_error (by rintro f ⟨⟩)
    · dsimp only
      unfold Method.newVar
      rw [Option.not_isSome_iff_eq_none.mp hvar]
      exact ih _ _

theorem addStmts_rejects (ds : List StmtDesc) (i : Nat) (m : Method) (t : ClassTable) :
    Raises BuildError.Rejects (addStmts i ds m t) := by
  induction ds generalizing i m t with
  | nil => exact raises_ok _
  | cons d ds ih =>
    unfold addStmts
    split
    · exact raises_error (by rintro f ⟨⟩)
    · exact ih _ _ _

theorem addBodies_rejects (bodies : List (MethodId × MethodDesc)) (t : ClassTable) :
    Raises BuildError.Rejects (addBodies bodies t) := by
  induction bodies generalizing t with
  | nil => exact raises_ok _
  | cons b bodies ih =>
    unfold addBodies
    split
    · exact ih t
    · exact (addLocals_rejects _ _ _).bind fun r => (addStmts_rejects _ _ _ _).bind fun r' => ih _

theorem addEntries_rejects (es : List String) (p : Program) :
    Raises BuildError.Rejects (addEntries es p) := by
  induction es generalizing p with
  | nil => exact raises_ok _
  | cons e es ih =>
    unfold addEntries
    split
    · exact raises_error (by rintro f ⟨⟩)
    · exact ih _

/-! ## Descriptions -/

/-- A description of a method gives two types to one name, of the receiver and the parameters, and
is the first one of its method. -/
def Clashes (d : Description) : Prop := ClashesFrom (fun _ => False) (methodsOf d.classes)

/-- Classes have names, fields have names and types, and signatures of methods are in order. -/
def Declarable (d : Description) : Prop := ∀ c ∈ d.classes, c.name ≠ "" ∧ ClassFit c

theorem declareClasses_rejects (cs : List ClassDesc) (t : ClassTable) :
    Raises BuildError.Rejects (declareClasses cs t) := by
  induction cs generalizing t with
  | nil => exact raises_ok _
  | cons c cs ih =>
    unfold declareClasses
    split_ifs
    · exact raises_error (by rintro f ⟨⟩)
    · exact ih _

theorem exists_declareClasses {cs : List ClassDesc} (h : ∀ c ∈ cs, c.name ≠ "") (t : ClassTable) :
    ∃ t', declareClasses cs t = .ok t' := by
  induction cs generalizing t with
  | nil => exact ⟨t, rfl⟩
  | cons c cs ih =>
    obtain ⟨hname, hnames⟩ := List.forall_mem_cons.mp h
    rw [declareClasses, if_neg hname]
    exact ih hnames _

/-- No method is known before members are declared. -/
theorem clashes_iff {d : Description} {t : ClassTable}
    (h : declareClasses d.classes .initial = .ok t) :
    ClashesFrom (Knows t) (methodsOf d.classes) ↔ d.Clashes := by
  have hnone : t.Methods fun _ => False := declareClasses_methods .initial t h
  refine clashesFrom_congr fun id => iff_false_intro fun hknows => ?_
  obtain ⟨m, hm⟩ := Option.isSome_iff_exists.mp hknows
  exact hnone id m hm

/-- A fault comes from a clash. -/
theorem clashes_of_fault {d : Description} {f : Fault} (h : d.build = .error (.fault f)) :
    d.Clashes ∧ ∃ id name now was, f = .redeclared id name now was := by
  unfold build at h
  cases hclasses : declareClasses d.classes .initial with
  | error e =>
    rw [hclasses] at h
    obtain rfl : e = .fault f := Except.error.inj h
    exact absurd rfl (declareClasses_rejects _ _ _ hclasses f)
  | ok t =>
    have hsettles := declareMembers_settles d.classes t
    rw [hclasses] at h
    replace h : (declareMembers d.classes t >>= fun r => addBodies r.1 r.2 >>= fun t =>
      addEntries d.entries { hierarchy := { table := t } }) = .error (.fault f) := h
    cases hmembers : declareMembers d.classes t with
    | error e =>
      rw [hmembers] at h hsettles
      obtain rfl : e = .fault f := Except.error.inj h
      exact ⟨(clashes_iff hclasses).mp hsettles.1, hsettles.2⟩
    | ok r =>
      rw [hmembers] at h
      have hrest := (addBodies_rejects r.1 r.2).bind fun t =>
        addEntries_rejects d.entries { hierarchy := { table := t } }
      exact absurd rfl (hrest _ h f)

/-- A clash among declarations that are in order otherwise is a fault. -/
theorem fault_of_clashes {d : Description} (hd : d.Declarable) (h : d.Clashes) :
    ∃ f, d.build = .error (.fault f) := by
  obtain ⟨t, hclasses⟩ := exists_declareClasses (fun c hc => (hd c hc).1) .initial
  have hsettles := declareMembers_settles d.classes t
  unfold build
  rw [hclasses]
  show ∃ f, (declareMembers d.classes t >>= fun r => addBodies r.1 r.2 >>= fun t =>
    addEntries d.entries { hierarchy := { table := t } }) = .error (.fault f)
  cases hmembers : declareMembers d.classes t with
  | error e =>
    rw [hmembers] at hsettles
    cases e with
    | fault f => exact ⟨f, rfl⟩
    | _ => exact absurd (fun c hc => (hd c hc).2) hsettles
  | ok r =>
    rw [hmembers] at hsettles
    exact absurd ((clashes_iff hclasses).mpr h) hsettles.1

/-- A description describes a program, or is rejected as invalid, or gives two types to one name
among the receiver and the parameters of a method. The last is a fault, and always is one if the
declarations are in order otherwise. -/
theorem build_answers (d : Description) :
    ((∃ p, d.build = .ok p) ∨
      (∃ e s, d.build = .error e ∧ e.Rejects ∧ e.message = "invalid program description: " ++ s) ∨
      d.Clashes ∧ ∃ id name now was, d.build = .error (.fault (.redeclared id name now was))) ∧
    (d.Declarable → d.Clashes → ∃ id name now was,
      d.build = .error (.fault (.redeclared id name now was))) := by
  constructor
  · cases hbuild : d.build with
    | ok p => exact Or.inl ⟨p, rfl⟩
    | error e =>
      right
      by_cases hrejects : e.Rejects
      · obtain ⟨s, hs⟩ := hrejects.message_eq
        exact Or.inl ⟨e, s, rfl, hrejects, hs⟩
      · obtain ⟨f, hf⟩ := not_forall_not.mp hrejects
        obtain rfl : e = .fault f := hf
        obtain ⟨hclashes, id, name, now, was, rfl⟩ := clashes_of_fault hbuild
        exact Or.inr ⟨hclashes, id, name, now, was, rfl⟩
  · intro hd hclashes
    obtain ⟨f, hf⟩ := fault_of_clashes hd hclashes
    obtain ⟨-, id, name, now, was, rfl⟩ := clashes_of_fault hf
    exact ⟨id, name, now, was, hf⟩

/-- A method that names its parameter like its receiver, which has another type. -/
def namedThis : Description where
  classes :=
    [⟨"A", "", [], false, false, [], [⟨"void m(B)", ["this"], false, false, false, [], []⟩]⟩]

/-- A method that gives one name to two parameters of different types. -/
def namedTwice : Description where
  classes :=
    [⟨"A", "", [], false, false, [], [⟨"void m(A,B)", ["x", "x"], true, false, false, [], []⟩]⟩]

theorem build_answers_namedThis :
    namedThis.Declarable ∧ namedThis.Clashes ∧
      ∃ id name now was, namedThis.build = .error (.fault (.redeclared id name now was)) := by
  have hread : (Signature.readSubsig "void m(B)".toList).value = .ok
      ⟨"m", [.cls "B"], .prim .void⟩ := by
    decide +kernel
  have hdeclarable : namedThis.Declarable := by
    refine List.forall_mem_singleton.mpr ⟨by decide, nofun, List.forall_mem_singleton.mpr ?_⟩
    exact ⟨_, hread, Nat.le_refl 1⟩
  have hclashes : namedThis.Clashes := by
    refine ⟨[], _, _, [], _, rfl, hread, fun hconsistent => ?_, not_false,
      fun x hx => absurd hx List.not_mem_nil⟩
    exact absurd (hconsistent "this" (.cls "A") (.cls "B") (by decide) (by decide)) (by decide)
  exact ⟨hdeclarable, hclashes, (build_answers namedThis).2 hdeclarable hclashes⟩

/-- Not every description describes a program or is rejected. -/
theorem exists_build_fault :
    ∃ d : Description, ¬ ((∃ p, d.build = .ok p) ∨ ∃ e, d.build = .error e ∧ e.Rejects) := by
  have hfault : namedTwice.build.map (fun _ => ()) =
      .error (.fault (.redeclared ⟨"A", "void m(A,B)"⟩ "x" (some (.cls "B"))
        (some (.cls "A")))) := by decide +kernel
  refine ⟨namedTwice, ?_⟩
  rintro (⟨p, hp⟩ | ⟨e, he, hrejects⟩)
  · rw [hp] at hfault
    exact nomatch hfault
  · rw [he] at hfault
    exact hrejects _ (Except.error.inj hfault)

end Description

end PointsTo
