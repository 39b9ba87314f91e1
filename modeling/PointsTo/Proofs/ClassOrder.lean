import PointsTo.Proofs.Scope

/-!
# The order of classes in a description does not matter

A description is read in three passes over its classes: the first declares them, the second declares
their members, and the third fills in bodies.

1. In each pass, what is done for a class changes what is known about that class and mentions
   others. It depends on what is known about that class and on the supertypes and fields of all
   classes only (`ClassTable.Confined`).
2. So what is done for two classes may be done in either order (`Confined.swap`), and a pass over a
   list of classes has the same outcome for all orders of the list (`Sequential.perm`).
3. `Description.build_perm` says it of the three passes together.
-/

namespace PointsTo

open Std (TreeMap)

theorem exists_of_bind_eq_ok {ε α β : Type} {x : Except ε α} {f : α → Except ε β} {b : β}
    (h : (x >>= f) = .ok b) :
    ∃ a, x = .ok a ∧ f a = .ok b := by
  cases x with
  | error e => exact nomatch h
  | ok a => exact ⟨a, rfl, h⟩

theorem exists_of_map_eq_ok {ε α β : Type} {x : Except ε α} {f : α → β} {b : β}
    (h : x.map f = .ok b) :
    ∃ a, x = .ok a ∧ f a = b := by
  cases x with
  | error e => exact nomatch h
  | ok a => exact ⟨a, rfl, Except.ok.inj h⟩

namespace ClassTable

variable {t t' t'' u u' : ClassTable} {n k : String} {i j : ClassInfo} {ns ms : List String}

/-! ## Tables that hold the same -/

/-- Loaded tables that hold the same. -/
structure Twin (t u : ClassTable) : Prop where
  left : t.Loaded
  right : u.Loaded
  names : u.names = t.names
  info : ∀ c, u.info c = t.info c

theorem Twin.refl (ht : t.Loaded) : t.Twin t := ⟨ht, ht, rfl, fun _ => rfl⟩

theorem Twin.trans (h : t.Twin t') (h' : t'.Twin t'') : t.Twin t'' :=
  ⟨h.left, h'.right, h'.names.trans h.names, fun c => (h'.info c).trans (h.info c)⟩

/-- The names of a table are in order. -/
theorem names_eq_of_mem_iff (h : ∀ c, c ∈ u.names ↔ c ∈ t.names) : u.names = t.names := by
  have hperm : u.names.Perm t.names :=
    (List.perm_ext_iff_of_nodup TreeMap.nodup_keys TreeMap.nodup_keys).mpr h
  refine hperm.eq_of_pairwise (fun a b _ _ hab hba => ?_) TreeMap.ordered_keys TreeMap.ordered_keys
  exact absurd hba (Std.OrientedCmp.not_lt_of_lt hab)

/-! ## Changes to one class -/

/-- One class was replaced, and classes were mentioned. -/
structure Revised (t : ClassTable) (n : String) (i : ClassInfo) (ns : List String)
    (t' : ClassTable) : Prop where
  info : ∀ c, t'.info c = if c = n then i else t.info c
  names : ∀ c, c ∈ t'.names ↔ c ∈ ns ∨ c ∈ t.names

namespace Revised

theorem refl (h : t.info n = i) : t.Revised n i [] t := by
  refine ⟨fun c => ?_, fun c => by simp⟩
  split_ifs with hc
  · rw [hc, h]
  · rfl

theorem trans (h : t.Revised n i ns t') (h' : t'.Revised n j ms t'') :
    t.Revised n j (ms ++ ns) t'' := by
  refine ⟨fun c => ?_, fun c => by rw [h'.names, h.names, List.mem_append, or_assoc]⟩
  rw [h'.info, h.info]
  split_ifs <;> rfl

theorem set (h : t.Revised n i ns t') (j : ClassInfo) : t.Revised n j (n :: ns) (t'.set n j) := by
  refine ⟨fun c => ?_, fun c => by rw [mem_names_set, h.names, List.mem_cons, or_assoc]⟩
  rw [info_set, h.info]
  split_ifs <;> rfl

theorem mentionAll (h : t.Revised n i ns t') (ms : List String) :
    t.Revised n i (ms ++ ns) (t'.mentionAll ms) :=
  ⟨fun c => by rw [info_mentionAll, h.info], fun c => by rw [mem_names_mentionAll, h.names,
    List.mem_append, or_assoc]⟩

theorem of_mentionTypes {types : List Ty} (h : (t.mentionTypes types).Revised n i ns t') :
    t.Revised n i (ns ++ types.filterMap Ty.className?) t' :=
  ⟨fun c => by rw [h.info, info_mentionTypes], fun c => by
    rw [h.names, ClassTable.mentionTypes, mem_names_mentionAll, List.mem_append, or_assoc]⟩

theorem setMethod {m : Method} (h : t.Revised n i ns t') (hm : m.cls = n) :
    t.Revised n { i with methods := i.methods.insert m.sub.text m } (n :: ns) (t'.setMethod m) := by
  unfold ClassTable.setMethod
  rw [hm, h.info, if_pos rfl]
  exact h.set _

theorem info_self (h : t.Revised n i ns t') : t'.info n = i := by rw [h.info, if_pos rfl]

theorem info_of_ne (h : t.Revised n i ns t') (hne : k ≠ n) :
    t'.info k = t.info k := by rw [h.info, if_neg hne]

/-- The same change made to tables that hold the same. -/
theorem twin (h : t.Revised n i ns t') (h' : u.Revised n i ns u') (htu : t.Twin u) (ht' : t'.Loaded)
    (hu' : u'.Loaded) :
    t'.Twin u' where
  left := ht'
  right := hu'
  names := names_eq_of_mem_iff fun c => by rw [h'.names, h.names, htu.names]
  info c := by rw [h'.info, h.info, htu.info]

/-- Changes to two classes in either order. -/
theorem swap (hne : n ≠ k) {t₁ u₁ : ClassTable} (h : t.Revised n i ns t₁)
    (h' : t₁.Revised k j ms t')
    (hu : t.Revised k j ms u₁) (hu' : u₁.Revised n i ns u') (ht' : t'.Loaded)
    (hloaded : u'.Loaded) : t'.Twin u' where
  left := ht'
  right := hloaded
  names := names_eq_of_mem_iff fun c => by rw [hu'.names, hu.names, h'.names, h.names, or_left_comm]
  info c := by
    rw [hu'.info, hu.info, h'.info, h.info]
    split_ifs with hn hk
    · exact absurd (hn.symm.trans hk) hne
    all_goals rfl

end Revised

/-- Where the first step succeeds, the second one succeeds on tables that hold the same, and leads
to tables that hold the same. -/
def Mirrors (f g : ClassTable → Except BuildError ClassTable) : Prop :=
  ∀ t u t', t.Twin u → f t = .ok t' → ∃ u', g u = .ok u' ∧ t'.Twin u'

namespace Mirrors

variable {f f' g g' : ClassTable → Except BuildError ClassTable}

theorem trans (h : Mirrors f g) (h' : Mirrors g g') : Mirrors f g' := by
  intro t u t' htu hf
  obtain ⟨u₁, hu₁, htu₁⟩ := h t u t' htu hf
  obtain ⟨u', hu', htu'⟩ := h' u u u₁ (.refl htu.right) hu₁
  exact ⟨u', hu', htu₁.trans htu'⟩

theorem bind (hf : Mirrors f f') (hg : Mirrors g g') :
    Mirrors (fun t => f t >>= g) fun t => f' t >>= g' := by
  intro t u t' htu h
  obtain ⟨t₁, ht₁, h⟩ := exists_of_bind_eq_ok h
  obtain ⟨u₁, hu₁, htu₁⟩ := hf t u t₁ htu ht₁
  obtain ⟨u', hu', htu'⟩ := hg t₁ u₁ t' htu₁ h
  refine ⟨u', ?_, htu'⟩
  dsimp only
  rw [hu₁]
  exact hu'

end Mirrors

/-! ## Steps that work on one class -/

/-- The step makes one and the same change to all tables that agree with `t` on the class `n` and on
the given part of every class. -/
def Repeats {β : Type} (part : ClassInfo → β) (n : String)
    (f : ClassTable → Except BuildError ClassTable)
    (t : ClassTable) (i : ClassInfo) (ns : List String) : Prop :=
  ∀ u, u.Loaded → (∀ c, part (u.info c) = part (t.info c)) → u.info n = t.info n →
    ∃ u', f u = .ok u' ∧ u.Revised n i ns u'

/-- A step that works on the class `n`. What it does depends on what is known about that class and
on the given part of what is known about every class, which it does not change. -/
def Confined {β : Type} (part : ClassInfo → β) (n : String)
    (f : ClassTable → Except BuildError ClassTable) : Prop :=
  ∀ t t', t.Loaded → f t = .ok t' → t'.Loaded ∧ ∃ i ns, part i = part (t.info n) ∧
    Repeats part n f t i ns

/-- No part of what is known about a class. -/
def nothing (_ : ClassInfo) : Unit := ()

section Confined

variable {α β : Type} {part : ClassInfo → β} {f g : ClassTable → Except BuildError ClassTable}

theorem Revised.part_eq (h : t.Revised n i ns t') (hi : part i = part (t.info n)) (c : String) :
    part (t'.info c) = part (t.info c) := by
  rw [h.info]
  split_ifs with hc
  · rw [hc, hi]
  · rfl

namespace Confined

theorem step (hf : Confined part n f) (ht : t.Loaded) (h : f t = .ok t') :
    t'.Loaded ∧ ∃ i ns, part i = part (t.info n) ∧ t.Revised n i ns t' ∧
      Repeats part n f t i ns := by
  obtain ⟨ht', i, ns, hi, hrun⟩ := hf t t' ht h
  obtain ⟨t₁, h₁, hrevised⟩ := hrun t ht (fun _ => rfl) rfl
  obtain rfl := Except.ok.inj (h.symm.trans h₁)
  exact ⟨ht', i, ns, hi, hrevised, hrun⟩

theorem pure (part : ClassInfo → β) (n : String) : Confined part n .ok := by
  intro t t' ht h
  obtain rfl := Except.ok.inj h
  exact ⟨ht, t.info n, [], rfl, fun u _ _ hinfo => ⟨u, rfl, .refl hinfo⟩⟩

theorem bind (hf : Confined part n f) (hg : Confined part n g) :
    Confined part n fun t => f t >>= g := by
  intro t t'' ht h
  obtain ⟨t', hft, hgt⟩ := exists_of_bind_eq_ok h
  obtain ⟨ht', i, ns, hi, hrevised, hrun⟩ := hf.step ht hft
  obtain ⟨ht'', j, ms, hj, -, hrun'⟩ := hg.step ht' hgt
  refine ⟨ht'', j, ms ++ ns, by rw [hj, hrevised.part_eq hi], fun u hu hpart hinfo => ?_⟩
  obtain ⟨u', hfu, hu'⟩ := hrun u hu hpart hinfo
  have hi' : part i = part (u.info n) := by rw [hi, hinfo]
  obtain ⟨u'', hgu, hu''⟩ := hrun' u' (hf.step hu hfu).1
    (fun c => by rw [hu'.part_eq hi', hrevised.part_eq hi, hpart])
    (by rw [hu'.info_self, hrevised.info_self])
  refine ⟨u'', ?_, hu'.trans hu''⟩
  dsimp only
  rw [hfu]
  exact hgu

/-- A step that depends on what is known about its class only. -/
theorem of_nothing (hloaded : ∀ t t', t.Loaded → f t = .ok t' → t'.Loaded)
    (h : ∀ t t', f t = .ok t' → ∃ i ns, ∀ u, u.info n = t.info n → ∃ u', f u = .ok u' ∧
      u.Revised n i ns u') :
    Confined nothing n f := by
  intro t t' ht hf
  obtain ⟨i, ns, hrun⟩ := h t t' hf
  exact ⟨hloaded t t' ht hf, i, ns, rfl, fun u _ _ => hrun u⟩

/-- A step does the same to tables that hold the same. -/
theorem mirrors (hf : Confined part n f) : Mirrors f f := by
  intro t u t' htu h
  obtain ⟨ht', i, ns, -, hrevised, hrun⟩ := hf.step htu.left h
  obtain ⟨u', hu, hrevised'⟩ := hrun u htu.right (fun c => by rw [htu.info]) (htu.info n)
  exact ⟨u', hu, hrevised.twin hrevised' htu ht' (hf.step htu.right hu).1⟩

/-- Steps that work on two classes may be taken in either order. -/
theorem swap (hf : Confined part n f) (hg : Confined part k g) (hne : n ≠ k) :
    Mirrors (fun t => f t >>= g) fun t => g t >>= f := by
  intro t u t' htu h
  obtain ⟨t₁, hft, hgt⟩ := exists_of_bind_eq_ok h
  obtain ⟨ht₁, i, ns, hi, hrevised, hrun⟩ := hf.step htu.left hft
  obtain ⟨ht', j, ms, hj, hrevised', hrun'⟩ := hg.step ht₁ hgt
  -- the other order on the same table
  have hk := hrevised.info_of_ne hne.symm
  obtain ⟨w₁, hgw, hw₁⟩ := hrun' t htu.left (fun c => (hrevised.part_eq hi c).symm) hk.symm
  have hloaded := (hg.step htu.left hgw).1
  obtain ⟨w, hfw, hw⟩ := hrun w₁ hloaded (hw₁.part_eq (by rw [hj, hk])) (hw₁.info_of_ne hne)
  have htw : t'.Twin w := hrevised.swap hne hrevised' hw₁ hw ht' (hf.step hloaded hfw).1
  -- and then on the table that holds the same
  obtain ⟨u', hu', hwu⟩ := hg.mirrors.bind hf.mirrors t u w htu (by dsimp only; rw [hgw]; exact hfw)
  exact ⟨u', hu', htw.trans hwu⟩

end Confined

/-! ## Passes over a list -/

/-- A pass that takes one step for each member of a list. -/
structure Sequential (f : List α → ClassTable → Except BuildError ClassTable) : Prop where
  nil : ∀ t, f [] t = .ok t
  cons : ∀ a as t, f (a :: as) t = f [a] t >>= f as

namespace Sequential

variable {f : List α → ClassTable → Except BuildError ClassTable} {as as' : List α}
  (hf : Sequential f)

include hf

theorem eq_bind (a : α) (as : List α) :
    f (a :: as) = fun t => f [a] t >>= f as := funext (hf.cons a as)

theorem eq_bind_bind (a b : α) (as : List α) :
    f (a :: b :: as) = fun t => (f [a] t >>= f [b]) >>= f as := by
  funext t
  rw [hf.cons, hf.eq_bind b as, bind_assoc]

theorem append (as as' : List α) (t : ClassTable) : f (as ++ as') t = f as t >>= f as' := by
  induction as generalizing t with
  | nil =>
    rw [List.nil_append, hf.nil]
    rfl
  | cons a as ih =>
    rw [List.cons_append, hf.cons, hf.cons a as, bind_assoc]
    exact congrArg (f [a] t >>= ·) (funext ih)

theorem confined (h : ∀ a ∈ as, Confined part n (f [a])) : Confined part n (f as) := by
  induction as with
  | nil =>
    have hnil : f [] = .ok := funext hf.nil
    rw [hnil]
    exact .pure part n
  | cons a as ih =>
    obtain ⟨ha, has⟩ := List.forall_mem_cons.mp h
    rw [hf.eq_bind]
    exact ha.bind (ih has)

variable {name : α → String} (hstep : ∀ a, Confined part (name a) (f [a]))

include hstep

theorem mirrors (as : List α) : Mirrors (f as) (f as) := by
  induction as with
  | nil =>
    have hnil : f [] = .ok := funext hf.nil
    rw [hnil]
    exact (Confined.pure part "").mirrors
  | cons a as ih =>
    rw [hf.eq_bind]
    exact (hstep a).mirrors.bind ih

/-- A pass has the same outcome for all orders of a list whose members work on different classes. -/
theorem perm (hperm : as.Perm as') (hnames : (as.map name).Nodup) : Mirrors (f as) (f as') := by
  induction hperm with
  | nil => exact hf.mirrors hstep []
  | @cons a as as' _ ih =>
    rw [hf.eq_bind a as, hf.eq_bind a as']
    exact (hstep a).mirrors.bind (ih (List.nodup_cons.mp hnames).2)
  | swap a b as =>
    have hne : name b ≠ name a :=
      fun heq => (List.nodup_cons.mp hnames).1 (heq ▸ List.mem_cons_self)
    rw [hf.eq_bind_bind, hf.eq_bind_bind]
    exact ((hstep b).swap (hstep a) hne).bind (hf.mirrors hstep as)
  | trans h _ ih ih' => exact (ih hnames).trans (ih' ((h.map name).nodup_iff.mp hnames))

end Sequential

end Confined

/-! ## Declarations

What a declaration changes is a matter of what is known about its class. -/

theorem exists_revised_declare (n : String) (i : ClassInfo) (d : ClassDecl) :
    ∃ j ns, ∀ t : ClassTable, t.info n = i → t.Revised n j ns (t.declare n d) :=
  ⟨_, _, fun t hinfo => by
    unfold declare
    dsimp only
    rw [hinfo]
    exact ((Revised.refl hinfo).set _).mentionAll _⟩

theorem exists_revised_addField (n : String) (i : ClassInfo) (name : String) (type : Option Ty)
    (static : Bool) :
    ∃ j ns, ∀ t : ClassTable, t.info n = i →
      ∃ f t', t.addField (.cls n) name type static = .ok (f, t') ∧ t.Revised n j ns t' := by
  unfold addField field?
  dsimp only
  cases hfield : i.fields[name]? with
  | some f => exact ⟨i, [], fun t hinfo => ⟨f, t, by rw [hinfo, hfield], .refl hinfo⟩⟩
  | none =>
    refine ⟨{ i with fields := i.fields.insert name ⟨n, name, type, static⟩ }, [n],
      fun t hinfo => ?_⟩
    refine ⟨⟨n, name, type, static⟩, _, ?_, (Revised.refl hinfo).set _⟩
    rw [hinfo, hfield]

theorem exists_revised_addMethod (n : String) (i : ClassInfo) (d : MethodDecl) :
    (∃ e, ∀ t : ClassTable, t.info n = i → t.addMethod (.cls n) d = .error e) ∨
      ∃ j ns, ∀ t : ClassTable, t.info n = i →
        ∃ m t', t.addMethod (.cls n) d = .ok (m, t') ∧ t.Revised n j ns t' := by
  unfold addMethod method?
  dsimp only
  cases hmethod : i.methods[d.sub.text]? with
  | some m => exact Or.inr ⟨i, [], fun t hinfo => ⟨m, t, by rw [hinfo, hmethod], .refl hinfo⟩⟩
  | none =>
    cases hdecl : Method.ofDecl n d with
    | error e => exact Or.inl ⟨e, fun t hinfo => by rw [hinfo, hmethod]⟩
    | ok m =>
      have hcls : m.cls = n := congrArg MethodId.cls (Method.id_ofDecl hdecl)
      refine Or.inr ⟨{ i with methods := i.methods.insert m.sub.text m }, [n], fun t hinfo => ?_⟩
      refine ⟨m, _, ?_, (Revised.refl hinfo).setMethod hcls⟩
      rw [hinfo, hmethod]

/-! ## Fields that statements find -/

/-- Supertypes and fields decide which field a name stands for. -/
theorem SameShape.fieldByName_eq (h : t.SameShape t') (ht : t.Complete) (ht' : t'.Complete) :
    t'.fieldByName = t.fieldByName := by
  funext type name
  unfold fieldByName
  simp only [ancestors_congr ht ht' h.supertypes, h.field?_eq]

end ClassTable

theorem StmtDesc.operation_congr {t t' : ClassTable} (h : t'.fieldByName = t.fieldByName)
    (m : Method) (d : StmtDesc) :
    d.operation t' m = d.operation t m := by
  unfold operation fieldOf
  rw [h]

namespace Description

open ClassTable

variable {t t' u : ClassTable} {c : ClassDesc}

/-! ## Declaring classes -/

theorem declareClasses_sequential : Sequential declareClasses where
  nil _ := rfl
  cons c cs t := by
    unfold declareClasses
    split_ifs <;> rfl

theorem declareClasses_confined (c : ClassDesc) : Confined nothing c.name (declareClasses [c]) := by
  refine .of_nothing (fun _ _ ht => declareClasses_loaded ht _) fun t t' h => ?_
  unfold declareClasses at h ⊢
  split_ifs at h ⊢
  obtain ⟨i, ns, hrevised⟩ := exists_revised_declare c.name (t.info c.name)
    ⟨c.super, c.interfaces, c.interface, c.abstract⟩
  exact ⟨i, ns, fun u hinfo => ⟨_, rfl, hrevised u hinfo⟩⟩

/-! ## Declaring members -/

theorem declareFields_sequential (cls : String) : Sequential (declareFields cls) where
  nil _ := rfl
  cons f fs t := by
    unfold declareFields
    split_ifs
    · rfl
    · dsimp only
      split <;> rfl

theorem declareFields_confined (cls : String) (f : FieldDesc) :
    Confined nothing cls (declareFields cls [f]) := by
  refine .of_nothing (fun _ _ ht => declareFields_loaded ht _) fun t t' h => ?_
  unfold declareFields at h ⊢
  split_ifs at h ⊢
  obtain ⟨i, ns, hrevised⟩ :=
    exists_revised_addField cls (t.info cls) f.name (some (Ty.ofName f.type)) f.static
  refine ⟨i, ns ++ [Ty.ofName f.type].filterMap Ty.className?, fun u hinfo => ?_⟩
  obtain ⟨g, u', hadd, hu'⟩ :=
    hrevised (u.mentionTypes [Ty.ofName f.type]) (by rw [info_mentionTypes, hinfo])
  refine ⟨u', ?_, hu'.of_mentionTypes⟩
  dsimp only
  rw [hadd]
  rfl

theorem declareMethods_sequential (c : ClassDesc) :
    Sequential fun ds t => (declareMethods c ds t).map Prod.snd where
  nil _ := rfl
  cons d ds t := by
    rw [declareMethods, declareMethods]
    cases declareMethod c d t with
    | error e => rfl
    | ok r =>
      show Except.map Prod.snd (declareMethods c ds r.2 >>= fun r' =>
        .ok ((r.1, d) :: r'.1, r'.2)) =
        (declareMethods c ds r.2).map Prod.snd
      cases declareMethods c ds r.2 <;> rfl

theorem exists_subsig_of_declareMethod {d : MethodDesc} {r : MethodId × ClassTable}
    (h : declareMethod c d t = .ok r) :
    ∃ sub, (Signature.readSubsig d.signature.toList).value = .ok sub ∧
      ¬ sub.params.length < d.params.length := by
  unfold declareMethod at h
  dsimp only at h
  split at h
  · exact nomatch h
  · next sub hread =>
    split_ifs at h with hnames
    exact ⟨sub, hread, hnames⟩

theorem declareMethods_confined (c : ClassDesc) (d : MethodDesc) :
    Confined nothing c.name fun t => (declareMethods c [d] t).map Prod.snd := by
  have hsingle : ∀ t, (declareMethods c [d] t).map Prod.snd = (declareMethod c d t).map
      Prod.snd := by
    intro t
    rw [declareMethods]
    cases declareMethod c d t <;> rfl
  simp only [hsingle]
  refine .of_nothing (fun t t' ht h => ?_) fun t t' h => ?_
  · obtain ⟨r, hr, rfl⟩ := exists_of_map_eq_ok h
    exact declareMethod_loaded ht r hr
  · obtain ⟨r, hr, rfl⟩ := exists_of_map_eq_ok h
    obtain ⟨sub, hread, hnames⟩ := exists_subsig_of_declareMethod hr
    simp only [declareMethod_eq hread hnames] at hr ⊢
    generalize (Signature.readSubsig d.signature.toList).mentions = types at hr ⊢
    rcases exists_revised_addMethod c.name (t.info c.name) (d.decl c sub) with
      ⟨e, herror⟩ | ⟨i, ns, hrevised⟩
    · rw [herror (t.mentionTypes types) (info_mentionTypes ..)] at hr
      exact nomatch hr
    · refine ⟨i, ns ++ types.filterMap Ty.className?, fun u hinfo => ?_⟩
      obtain ⟨m, u', hadd, hu'⟩ :=
        hrevised (u.mentionTypes types) (by rw [info_mentionTypes, hinfo])
      refine ⟨u', ?_, hu'.of_mentionTypes⟩
      rw [hadd]
      rfl

theorem map_snd_declareMembers (c : ClassDesc) (cs : List ClassDesc) (t : ClassTable) :
    (declareMembers (c :: cs) t).map Prod.snd =
      (declareFields c.name c.fields t >>= fun t => (declareMethods c c.methods t).map Prod.snd) >>=
        fun t =>
        (declareMembers cs t).map Prod.snd := by
  rw [declareMembers]
  cases declareFields c.name c.fields t with
  | error e => rfl
  | ok t₁ =>
    show Except.map Prod.snd (declareMethods c c.methods t₁ >>= fun r =>
      declareMembers cs r.2 >>= fun r' =>
      .ok (r.1 ++ r'.1, r'.2)) = (declareMethods c c.methods t₁).map Prod.snd >>= fun t =>
        (declareMembers cs t).map Prod.snd
    cases declareMethods c c.methods t₁ with
    | error e => rfl
    | ok r =>
      show Except.map Prod.snd (declareMembers cs r.2 >>= fun r' => .ok (r.1 ++ r'.1, r'.2)) =
        (declareMembers cs r.2).map Prod.snd
      cases declareMembers cs r.2 <;> rfl

theorem map_snd_declareMembers_singleton (c : ClassDesc) (t : ClassTable) :
    (declareMembers [c] t).map Prod.snd =
    declareFields c.name c.fields t >>= fun t => (declareMethods c c.methods t).map Prod.snd :=
  (map_snd_declareMembers c [] t).trans (bind_pure _)

theorem declareMembers_sequential : Sequential fun cs t => (declareMembers cs t).map Prod.snd where
  nil _ := rfl
  cons c cs t := by rw [map_snd_declareMembers, map_snd_declareMembers_singleton]

theorem declareMembers_confined (c : ClassDesc) :
    Confined nothing c.name fun t => (declareMembers [c] t).map Prod.snd := by
  simp only [map_snd_declareMembers_singleton]
  exact ((declareFields_sequential c.name).confined fun f _ => declareFields_confined c.name f).bind
    ((declareMethods_sequential c).confined fun d _ => declareMethods_confined c d)

/-! ## Filling in bodies -/

/-- The bodies of the methods of the classes. -/
def bodiesOf (cs : List ClassDesc) : List (MethodId × MethodDesc) :=
  (methodsOf cs).filterMap fun x => (x.2.id? x.1.name).map (·, x.2)

/-- The bodies that are left to fill in are those of the classes. -/
theorem declareMembers_bodies {cs : List ClassDesc} {r : List (MethodId × MethodDesc) × ClassTable}
    (ht : t.Loaded)
    (h : declareMembers cs t = .ok r) : r.1 = bodiesOf cs := by
  have hbodies := (declareMembers_declaring (q := fun _ => True) ht (fun _ _ _ => trivial)
    (fun _ _ _ _ => trivial) r
    h).bodies
  have hmap :=
    congrArg (List.filterMap fun b : Option MethodId × MethodDesc => b.1.map (·, b.2)) hbodies
  rw [List.filterMap_map, List.filterMap_map] at hmap
  refine Eq.trans ?_ hmap
  exact List.filterMap_some.symm

theorem cls_eq_of_mem_bodiesOf {b : MethodId × MethodDesc} (h : b ∈ bodiesOf [c]) :
    b.1.cls = c.name := by
  obtain ⟨x, hx, hb⟩ := List.mem_filterMap.mp h
  obtain ⟨id, hid, rfl⟩ := Option.map_eq_some_iff.mp hb
  obtain ⟨d, -, rfl⟩ : ∃ d ∈ c.methods, (c, d) = x := by simpa [methodsOf] using hx
  obtain ⟨sub, -, rfl⟩ := Option.map_eq_some_iff.mp hid
  rfl

theorem bodiesOf_cons (c : ClassDesc) (cs : List ClassDesc) :
    bodiesOf (c :: cs) = bodiesOf [c] ++ bodiesOf cs := by
  unfold bodiesOf methodsOf
  rw [← List.filterMap_append, List.flatMap_cons, List.flatMap_singleton]

theorem mentionTypes_append (t : ClassTable) (types types' : List Ty) :
    t.mentionTypes (types ++ types') = (t.mentionTypes types).mentionTypes types' := by
  unfold mentionTypes mentionAll
  rw [List.filterMap_append, List.foldl_append]

/-- Declaring local variables is a matter of the method only. -/
theorem addLocals_eq {ls : List (String × String)} :
    ∀ {m : Method} {t : ClassTable} {r : Method × ClassTable},
    addLocals ls m t = .ok r → ∃ types, ∀ u, addLocals ls m u = .ok (r.1,
      u.mentionTypes types) := by
  induction ls with
  | nil =>
    intro m t r h
    obtain rfl := Except.ok.inj h
    exact ⟨[], fun u => rfl⟩
  | cons l ls ih =>
    intro m t r h
    unfold addLocals at h ⊢
    split_ifs at h ⊢
    dsimp only at h ⊢
    cases hvar : m.newVar l.1 (some (Ty.ofName l.2)) with
    | error e =>
      rw [hvar] at h
      cases h
    | ok v =>
      rw [hvar] at h
      obtain ⟨types, hrest⟩ := ih h
      refine ⟨[Ty.ofName l.2] ++ types, fun u => ?_⟩
      rw [mentionTypes_append]
      exact hrest _

/-- What is known about a class that the meaning of statements depends on. -/
def shape (i : ClassInfo) : List String × TreeMap String Field := (i.supertypes, i.fields)

theorem sameShape_of_shape (h : ∀ c, shape (u.info c) = shape (t.info c)) : t.SameShape u :=
  ⟨fun c => (Prod.mk.inj (h c)).1, fun c => (Prod.mk.inj (h c)).2⟩

/-- Adding statements is a matter of the method and of the supertypes and fields of classes. -/
theorem addStmts_eq {ds : List StmtDesc} :
    ∀ {i : Nat} {m : Method} {t : ClassTable} {r : Method × ClassTable},
    t.Loaded → addStmts i ds m t = .ok r →
      ∃ types, ∀ u, u.Loaded → (∀ c, shape (u.info c) = shape (t.info c)) →
      addStmts i ds m u = .ok (r.1, u.mentionTypes types) := by
  induction ds with
  | nil =>
    intro i m t r _ h
    obtain rfl := Except.ok.inj h
    exact ⟨[], fun u _ _ => rfl⟩
  | cons d ds ih =>
    intro i m t r ht h
    unfold addStmts at h ⊢
    cases hop : d.operation t m with
    | error e =>
      rw [hop] at h
      cases h
    | ok op =>
      rw [hop] at h
      obtain ⟨types, hrest⟩ := ih (ht.mentionTypes op.2) h
      refine ⟨op.2 ++ types, fun u hu hshape => ?_⟩
      have hfields :=
        (sameShape_of_shape hshape).fieldByName_eq ht.declared.complete hu.declared.complete
      rw [StmtDesc.operation_congr hfields, hop, mentionTypes_append]
      exact hrest _ (hu.mentionTypes op.2)
        fun c => by rw [info_mentionTypes, info_mentionTypes, hshape]

theorem addBodies_singleton {id : MethodId} {d : MethodDesc} {m : Method}
    (hm : t.method? id = some m) :
    addBodies [(id, d)] t = addLocals d.locals m t >>= fun r =>
      addStmts 0 d.body r.1 r.2 >>= fun r' =>
      .ok (r'.2.setMethod r'.1) := by
  rw [addBodies, hm]
  rfl

/-- Filling in a body mentions types and replaces the method by one that does not depend on other
methods. -/
theorem exists_fill {id : MethodId} {d : MethodDesc} {m : Method} (ht : t.Loaded)
    (hm : t.method? id = some m)
    (h : addBodies [(id, d)] t = .ok t') : ∃ (m' : Method) (types : List Ty), m'.cls = id.cls ∧
      ∀ u, u.Loaded → (∀ c, shape (u.info c) = shape (t.info c)) → u.method? id = some m →
        addBodies [(id, d)] u = .ok ((u.mentionTypes types).setMethod m') := by
  rw [addBodies_singleton hm] at h
  obtain ⟨r, hlocals, h⟩ := exists_of_bind_eq_ok h
  obtain ⟨r', hstmts, -⟩ := exists_of_bind_eq_ok h
  have hgrown := addLocals_growing ⟨rfl, ht.methods id m hm, ht, hm⟩ r hlocals
  have hid : r'.1.id = id :=
    (Method.id_eq_of_header_eq (addStmts_growing hgrown r' hstmts).header).trans
    (ht.declared.id_eq hm)
  obtain ⟨types, hlocals'⟩ := addLocals_eq hlocals
  obtain ⟨types', hstmts'⟩ := addStmts_eq hgrown.loaded hstmts
  refine ⟨r'.1, types ++ types', congrArg MethodId.cls hid, fun u hu hshape hm' => ?_⟩
  rw [addBodies_singleton hm', hlocals']
  show (addStmts 0 d.body r.1 (u.mentionTypes types) >>= _) = _
  rw [hstmts' _ (hu.mentionTypes types)
    fun c => by rw [info_mentionTypes, info_addLocals r hlocals, hshape],
    mentionTypes_append]
  rfl

theorem addBodies_confined (id : MethodId) (d : MethodDesc) :
    Confined shape id.cls (addBodies [(id, d)]) := by
  intro t t' ht h
  refine ⟨addBodies_loaded ht t' h, ?_⟩
  have hmethod : ∀ u : ClassTable, u.info id.cls = t.info id.cls → u.method? id = t.method? id := by
    intro u hinfo
    unfold method?
    rw [hinfo]
  cases hm : t.method? id with
  | none =>
    refine ⟨t.info id.cls, [], rfl, fun u _ _ hinfo => ⟨u, ?_, .refl hinfo⟩⟩
    rw [addBodies, hmethod u hinfo, hm]
    rfl
  | some m =>
    obtain ⟨m', types, hcls, hfill⟩ := exists_fill ht hm h
    refine ⟨{ t.info id.cls with methods := (t.info id.cls).methods.insert m'.sub.text m' },
      [id.cls] ++ types.filterMap Ty.className?, rfl, fun u hu hshape hinfo => ?_⟩
    refine ⟨_, hfill u hu hshape ((hmethod u hinfo).trans hm),
      Revised.of_mentionTypes (.setMethod (.refl ?_) hcls)⟩
    rw [info_mentionTypes, hinfo]

theorem addBodies_sequential : Sequential addBodies where
  nil _ := rfl
  cons b bodies t := by
    cases hm : t.method? b.1 with
    | none =>
      rw [addBodies, addBodies, hm]
      rfl
    | some m =>
      rw [addBodies, addBodies_singleton hm, hm]
      show (addLocals b.2.locals m t >>= fun r => addStmts 0 b.2.body r.1 r.2 >>= fun r' =>
        addBodies bodies (r'.2.setMethod r'.1)) = _
      cases addLocals b.2.locals m t with
      | error e => rfl
      | ok r =>
        show (addStmts 0 b.2.body r.1 r.2 >>= _) = (addStmts 0 b.2.body r.1 r.2 >>= _) >>= _
        cases addStmts 0 b.2.body r.1 r.2 <;> rfl

theorem bodiesOf_sequential : Sequential fun cs => addBodies (bodiesOf cs) where
  nil _ := rfl
  cons c cs t := by rw [bodiesOf_cons, addBodies_sequential.append]

theorem bodiesOf_confined (c : ClassDesc) : Confined shape c.name (addBodies (bodiesOf [c])) :=
  addBodies_sequential.confined fun b hb => cls_eq_of_mem_bodiesOf hb ▸ addBodies_confined b.1 b.2

end Description

/-! ## Programs -/

/-- Programs that hold the same: the same classes, with all that is known about them, and the same
entries. -/
structure Program.Same (p p' : Program) : Prop where
  names : p'.table.names = p.table.names
  info : ∀ c, p'.table.info c = p.table.info c
  memo : p'.hierarchy.memo = p.hierarchy.memo
  entries : p'.entries = p.entries

theorem Program.Same.mentionTypes {p p' : Program} (h : p.Same p') (types : List Ty) :
    (p.mentionTypes types).Same (p'.mentionTypes types) where
  names := ClassTable.names_eq_of_mem_iff fun c => by
    show c ∈ (p'.table.mentionTypes types).names ↔ c ∈ (p.table.mentionTypes types).names
    unfold ClassTable.mentionTypes
    rw [ClassTable.mem_names_mentionAll, ClassTable.mem_names_mentionAll, h.names]
  info c := ((ClassTable.info_mentionTypes ..).trans (h.info c)).trans
    (ClassTable.info_mentionTypes ..).symm
  memo := h.memo
  entries := h.entries

theorem Program.Same.addEntry {p p' : Program} (h : p.Same p') (e : Option MethodId) :
    ({ p with entries := p.entries ++ [e] } : Program).Same
    { p' with entries := p'.entries ++ [e] } :=
  ⟨h.names, h.info, h.memo, congrArg (· ++ [e]) h.entries⟩

theorem Program.Same.fst_lookup {p p' : Program} (h : p.Same p') (signature : String) :
    (p'.lookup signature).1 = (p.lookup signature).1 := by
  have hmethod : ∀ types id, (p'.mentionTypes types).method? id = (p.mentionTypes types).method?
      id := fun types =>
    ClassTable.method?_congr fun c => congrArg ClassInfo.methods ((h.mentionTypes types).info c)
  unfold Program.lookup
  dsimp only
  cases (Signature.readSignature signature.toList).value with
  | error e => rfl
  | ok s =>
    dsimp only
    rw [hmethod]
    cases (p.mentionTypes (Signature.readSignature signature.toList).mentions).method?
      ⟨s.cls, s.sub.text⟩ <;> rfl

namespace Description

theorem addEntries_same {es : List String} :
    ∀ {p p' q : Program}, p.Same p' → addEntries es p = .ok q →
    ∃ q', addEntries es p' = .ok q' ∧ q.Same q' := by
  induction es with
  | nil =>
    intro p p' q hsame h
    obtain rfl := Except.ok.inj h
    exact ⟨p', rfl, hsame⟩
  | cons e es ih =>
    intro p p' q hsame h
    have hpair : ∀ p : Program, p.lookup e =
        ((p.lookup e).1, p.mentionTypes (Signature.readSignature e.toList).mentions) := fun p => by
      rw [← Program.snd_lookup]
    unfold addEntries at h ⊢
    rw [hpair p', hsame.fst_lookup]
    rw [hpair p] at h
    cases hlookup : (p.lookup e).1 with
    | error e =>
      rw [hlookup] at h
      cases h
    | ok id =>
      rw [hlookup] at h
      exact ih ((hsame.mentionTypes _).addEntry (some id)) h

/-- The order of the classes does not matter: if a description of classes with different names
describes a program, then so does every description with the same classes in another order, and the
programs are the same. -/
theorem build_perm {d : Description} {p : Program} {classes : List ClassDesc}
    (hnames : (d.classes.map ClassDesc.name).Nodup) (hperm : classes.Perm d.classes)
    (h : d.build = .ok p) :
    ∃ p', ({ d with classes } : Description).build = .ok p' ∧ p.Same p' := by
  unfold build at h ⊢
  obtain ⟨t₁, hclasses, h⟩ := exists_of_bind_eq_ok h
  obtain ⟨r, hmembers, h⟩ := exists_of_bind_eq_ok h
  obtain ⟨t₃, hbodies, hentries⟩ := exists_of_bind_eq_ok h
  have ht₁ := declareClasses_loaded .initial t₁ hclasses
  rw [declareMembers_bodies ht₁ hmembers] at hbodies
  -- the three passes, each over the classes in the other order
  obtain ⟨u₁, hclasses', htwin₁⟩ :=
    declareClasses_sequential.perm declareClasses_confined hperm.symm hnames
    .initial .initial t₁ (.refl .initial) hclasses
  obtain ⟨u₂, hu₂, htwin₂⟩ :=
    declareMembers_sequential.perm declareMembers_confined hperm.symm hnames
    t₁ u₁ r.2 htwin₁ (congrArg (Except.map Prod.snd) hmembers)
  obtain ⟨r', hmembers', rfl⟩ := exists_of_map_eq_ok hu₂
  obtain ⟨u₃, hbodies', htwin₃⟩ := bodiesOf_sequential.perm bodiesOf_confined hperm.symm hnames
    r.2 r'.2 t₃ htwin₂ hbodies
  have hsame : ({ hierarchy := { table := t₃ } } : Program).Same { hierarchy := { table := u₃ } } :=
    ⟨htwin₃.names, htwin₃.info, rfl, rfl⟩
  obtain ⟨p', hentries', hp'⟩ := addEntries_same hsame hentries
  refine ⟨p', ?_, hp'⟩
  rw [hclasses']
  show (declareMembers classes u₁ >>= _) = _
  rw [hmembers']
  show (addBodies r'.1 r'.2 >>= _) = _
  rw [declareMembers_bodies htwin₁.right hmembers', hbodies']
  exact hentries'

/-- A class with a superclass, an interface and an inherited field that are described after it. -/
def forwards : Description where
  entries := ["<Main: void main()>"]
  classes := [
    ⟨"Main", "Base", ["Task"], false, false, [],
      [⟨"void main()", [], true, false, false, [("a", "Main"), ("b", "Base")], [
        { blank with op := "new", lhs := "a", type := "Main" },
        { blank with op := "load", lhs := "b", base := "a", field := "link" },
        { blank with op := "invoke", recv := "a", method := "<Task: void run()>" }]⟩]⟩,
    ⟨"Base", "", [], false, false, [⟨"link", "Base", false⟩], []⟩,
    ⟨"Task", "", [], true, false, [], [⟨"void run()", [], false, false, false, [], []⟩]⟩]

/-- The program that `forwards` describes. -/
def forwardsProgram : Program := forwards.build.toOption.getD {}

theorem build_forwards : forwards.build = .ok forwardsProgram :=
  eq_ok_of_isSome (by decide +kernel) {}

theorem build_perm_forwards :
    ∃ p', ({ forwards with classes := forwards.classes.reverse } : Description).build = .ok p' ∧
      forwardsProgram.Same p' ∧ (p'.table.method? ⟨"Main", "void main()"⟩).any
        fun m => m.body.length = 3 := by
  obtain ⟨p', hbuild, hsame⟩ :=
    build_perm (by decide) (List.reverse_perm forwards.classes) build_forwards
  refine ⟨p', hbuild, hsame, ?_⟩
  rw [ClassTable.method?_congr fun c => congrArg ClassInfo.methods (hsame.info c)]
  decide +kernel

end Description

end PointsTo
