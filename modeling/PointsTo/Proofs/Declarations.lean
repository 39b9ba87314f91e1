import PointsTo.Proofs.Memory

/-!
# What depends on declarations only

Subtyping and the targets of calls depend on what is declared in a class table, and neither on the
bodies of methods nor on which classes were mentioned.

1. What is selected for a call is declared (`of_resolveVirtual_eq_ok`, `of_resolveMethod_eq_ok`),
   and only a search without end selects nothing and gives no reason (`unending_of_resolveVirtual`).
2. `SameDeclarations` compares two tables without the bodies of methods. They agree on subtypes
   (`isSubtype_eq`), for classes with finite superclass chains on resolutions (`resolveVirtual_eq`,
   `resolveMethod_eq`), and on the targets of calls if all chains are finite (`resolve_eq`).
3. `Hierarchy.Steady` are the hierarchies that were asked questions only after the last declaration.
   Their memory cannot be noticed (`Steady.faithful`), also when bodies have grown since the first
   question.
-/

namespace PointsTo

namespace ClassTable

/-! ## Selection without a monad -/

/-- What a search finds, if `most` finds the most specific ones among declarations. -/
def searched (t : ClassTable) (most : List Method → List Method) (p : Method → Bool)
    (found : Method → Resolution) (pick : List Method → Resolution) (c subsig : String) : Target :=
  match t.firstDeclaring p subsig (t.chain c) with
  | some m => .ok (found m)
  | none =>
    if t.isEndless c then .error (.endlessChain c)
    else .ok (pick (most (t.interfaceDeclarations c subsig)))

theorem search_id (t : ClassTable) (p : Method → Bool) (found : Method → Resolution)
    (pick : List Method → Resolution) (c subsig : String) :
    Id.run (t.search (fun a b => pure (t.isSubtype a b)) p found pick c subsig) =
      t.searched t.mostSpecific p found pick c subsig := by
  unfold search searched
  cases t.firstDeclaring p subsig (t.chain c) with
  | some m => rfl
  | none =>
    dsimp only
    split_ifs
    · rfl
    · rw [Id.run_bind, maximallySpecific_id]
      rfl

/-- A search that comes to an end. -/
theorem searched_of_acc {t : ClassTable} {c : String} (hc : Acc t.IsSuper c)
    (most : List Method → List Method) (p : Method → Bool) (found : Method → Resolution)
    (pick : List Method → Resolution) (subsig : String) :
    t.searched most p found pick c subsig = .ok
      (((t.firstDeclaring p subsig (t.chain c)).map found).getD
      (pick (most (t.interfaceDeclarations c subsig)))) := by
  unfold searched
  rw [isEndless_eq_false hc]
  cases t.firstDeclaring p subsig (t.chain c) with
  | some m => rfl
  | none => exact if_neg Bool.false_ne_true

/-- What a virtual call selects, if `most` finds the most specific ones among declarations. -/
def chooseVirtual (t : ClassTable) (most : List Method → List Method) (type : Ty)
    (subsig : String) :
    Target :=
  match t.receiverClass? type with
  | none => .ok (.error ⟨type, subsig, .receiverKind (t.kind type)⟩)
  | some c =>
    t.searched most (fun m => !m.static)
      (fun m => if m.abstract then .error ⟨type, subsig, .abstractOnChain m.cls⟩ else .ok m.id)
      (pickVirtual type subsig) c subsig

theorem resolveVirtual_def (t : ClassTable) (type : Ty) (subsig : String) :
    t.resolveVirtual type subsig = t.chooseVirtual t.mostSpecific type subsig := by
  unfold resolveVirtual selectVirtual chooseVirtual
  cases t.receiverClass? type with
  | none => rfl
  | some c => exact search_id t _ _ _ _ _

theorem resolveMethod_def (t : ClassTable) (type : Ty) (subsig : String) :
    t.resolveMethod type subsig =
      match type with
      | .cls c =>
        t.searched t.mostSpecific (fun _ => true) (fun m => .ok m.id)
          (pickMethod type subsig) c subsig
      | _ => .ok (.error ⟨type, subsig, .noMethods (t.kind type)⟩) := by
  unfold resolveMethod selectMethod
  cases type with
  | cls c => exact search_id t _ _ _ _ _
  | _ => rfl

/-! ## What is selected is declared -/

section Selected

variable {t : ClassTable} {type : Ty} {subsig : String} {id : MethodId} {m : Method}
  {ds : List Method}

theorem method?_of_firstDeclaring {q : Method → Bool} {cs : List String}
    (h : t.firstDeclaring q subsig cs = some m) :
    ∃ c ∈ cs, t.method? ⟨c, subsig⟩ = some m ∧ q m = true := by
  obtain ⟨c, hc, hfilter⟩ := List.exists_of_findSome?_eq_some h
  exact ⟨c, hc, Option.filter_eq_some_iff.mp hfilter⟩

theorem method?_of_mem_interfaceDeclarations {c : String}
    (h : m ∈ t.interfaceDeclarations c subsig) :
    ∃ c' ∈ t.superinterfaces c, t.method? ⟨c', subsig⟩ = some m ∧ m.static = false := by
  obtain ⟨i, hmem, hi⟩ := List.mem_filterMap.mp h
  obtain ⟨hm, hstatic⟩ := Option.filter_eq_some_iff.mp hi
  exact ⟨i, hmem, hm, by simpa using hstatic⟩

theorem of_pickVirtual_eq_ok (h : pickVirtual type subsig ds = .ok id) :
    ∃ m ∈ ds, m.id = id ∧ m.abstract = false := by
  unfold pickVirtual at h
  split at h
  · next m hm =>
    have hmem : m ∈ ds.filter fun m => !m.abstract := hm ▸ List.mem_singleton_self m
    obtain ⟨hm, hconcrete⟩ := List.mem_filter.mp hmem
    exact ⟨m, hm, Except.ok.inj h, by simpa using hconcrete⟩
  · exact nomatch h
  · split at h <;> exact nomatch h

theorem of_pickMethod_eq_ok (h : pickMethod type subsig ds = .ok id) : ∃ m ∈ ds, m.id = id := by
  unfold pickMethod at h
  split at h
  · next m hm =>
    have hmem : m ∈ ds.filter fun m => !m.abstract := hm ▸ List.mem_singleton_self m
    exact ⟨m, (List.mem_filter.mp hmem).1, Except.ok.inj h⟩
  · split at h
    · exact ⟨_, List.mem_cons_self, Except.ok.inj h⟩
    · exact nomatch h

/-- What a search finds is on the chain, or picked among the interface declarations. -/
theorem of_searched_eq_ok {most : List Method → List Method} {q : Method → Bool}
    {found : Method → Resolution} {pick : List Method → Resolution} {c : String} {r : Resolution}
    (h : t.searched most q found pick c subsig = .ok r) :
    (∃ m, t.firstDeclaring q subsig (t.chain c) = some m ∧ found m = r) ∨
      t.firstDeclaring q subsig (t.chain c) = none ∧
        pick (most (t.interfaceDeclarations c subsig)) = r := by
  unfold searched at h
  cases hfirst : t.firstDeclaring q subsig (t.chain c) with
  | some m =>
    rw [hfirst] at h
    exact Or.inl ⟨m, rfl, Except.ok.inj h⟩
  | none =>
    rw [hfirst] at h
    dsimp only at h
    split_ifs at h
    exact Or.inr ⟨rfl, Except.ok.inj h⟩

/-- The fault is a search up a superclass chain that has no end. -/
def Unending (t : ClassTable) (f : Fault) : Prop := ∃ c, f = .endlessChain c ∧ ¬ Acc t.IsSuper c

theorem FiniteChains.not_unending (ht : t.FiniteChains) {f : Fault} : ¬ t.Unending f :=
  fun ⟨c, _, hc⟩ => hc (ht.apply c)

/-- A search without an answer has no end. -/
theorem unending_of_searched {most : List Method → List Method} {q : Method → Bool}
    {found : Method → Resolution} {pick : List Method → Resolution} {c : String} {f : Fault}
    (h : t.searched most q found pick c subsig = .error f) : t.Unending f := by
  unfold searched at h
  cases hfirst : t.firstDeclaring q subsig (t.chain c) with
  | some m =>
    rw [hfirst] at h
    exact nomatch h
  | none =>
    rw [hfirst] at h
    dsimp only at h
    split_ifs at h with hendless
    exact ⟨c, (Except.error.inj h).symm, isEndless_iff.mp hendless⟩

theorem unending_of_resolveVirtual {f : Fault} (h : t.resolveVirtual type subsig = .error f) :
    t.Unending f := by
  rw [resolveVirtual_def] at h
  unfold chooseVirtual at h
  split at h
  · exact nomatch h
  · exact unending_of_searched h

theorem unending_of_resolveMethod {f : Fault} (h : t.resolveMethod type subsig = .error f) :
    t.Unending f := by
  rw [resolveMethod_def] at h
  split at h
  · exact unending_of_searched h
  · exact nomatch h

/-- A virtual call runs a concrete instance method of a superclass or superinterface of its
receiver. -/
theorem of_chooseVirtual_eq_ok {most : List Method → List Method} (hmost : ∀ ds, most ds ⊆ ds)
    (h : t.chooseVirtual most type subsig = .ok (.ok id)) :
    ∃ c c' m, t.receiverClass? type = some c ∧ c' ∈ t.chain c ++ t.superinterfaces c ∧
      t.method? ⟨c', subsig⟩ = some m ∧ m.id = id ∧ m.static = false ∧ m.abstract = false := by
  unfold chooseVirtual at h
  split at h
  · exact nomatch h
  · next c hc =>
    rcases of_searched_eq_ok h with ⟨m, hfirst, hr⟩ | ⟨-, hpick⟩
    · obtain ⟨c', hmem, hm, hstatic⟩ := method?_of_firstDeclaring hfirst
      split_ifs at hr with habstract
      exact ⟨c, c', m, hc, List.mem_append_left _ hmem, hm, Except.ok.inj hr, by
        simpa using hstatic,
        Bool.eq_false_iff.mpr habstract⟩
    · obtain ⟨m, hmem, hid, hconcrete⟩ := of_pickVirtual_eq_ok hpick
      obtain ⟨c', hmem, hm, hstatic⟩ := method?_of_mem_interfaceDeclarations (hmost _ hmem)
      exact ⟨c, c', m, hc, List.mem_append_right _ hmem, hm, hid, hstatic, hconcrete⟩

theorem of_resolveVirtual_eq_ok (h : t.resolveVirtual type subsig = .ok (.ok id)) :
    ∃ c c' m, t.receiverClass? type = some c ∧ c' ∈ t.chain c ++ t.superinterfaces c ∧
      t.method? ⟨c', subsig⟩ = some m ∧ m.id = id ∧ m.static = false ∧ m.abstract = false :=
  of_chooseVirtual_eq_ok (fun _ => List.filter_sublist.subset)
    ((resolveVirtual_def t type subsig).symm.trans h)

theorem of_resolveMethod_eq_ok (h : t.resolveMethod type subsig = .ok (.ok id)) :
    ∃ c m, t.method? ⟨c, subsig⟩ = some m ∧ m.id = id := by
  rw [resolveMethod_def] at h
  split at h
  · next c =>
    rcases of_searched_eq_ok h with ⟨m, hfirst, hr⟩ | ⟨-, hpick⟩
    · obtain ⟨c', -, hm, -⟩ := method?_of_firstDeclaring hfirst
      exact ⟨c', m, hm, Except.ok.inj hr⟩
    · obtain ⟨m, hmem, hid⟩ := of_pickMethod_eq_ok hpick
      obtain ⟨c', -, hm, -⟩ := method?_of_mem_interfaceDeclarations (List.mem_filter.mp hmem).1
      exact ⟨c', m, hm, hid⟩
  · exact nomatch h

end Selected

/-! ## The same declarations -/

theorem filter_map_header (ds : List Method) :
    ((ds.map Method.header).filter fun m => !m.abstract) =
    (ds.filter fun m => !m.abstract).map Method.header := List.filter_map

theorem pickVirtual_map (type : Ty) (subsig : String) (ds : List Method) :
    pickVirtual type subsig (ds.map Method.header) = pickVirtual type subsig ds := by
  unfold pickVirtual
  rw [filter_map_header]
  generalize (ds.filter fun m => !m.abstract) = concrete
  rcases concrete with _ | ⟨m, _ | ⟨m', ms⟩⟩ <;> cases ds <;> rfl

theorem pickMethod_map (type : Ty) (subsig : String) (ds : List Method) :
    pickMethod type subsig (ds.map Method.header) = pickMethod type subsig ds := by
  unfold pickMethod
  rw [filter_map_header]
  generalize (ds.filter fun m => !m.abstract) = concrete
  rcases concrete with _ | ⟨m, _ | ⟨m', ms⟩⟩ <;> cases ds <;> rfl

/-- The tables declare the same. -/
structure SameDeclarations (t t' : ClassTable) : Prop where
  interface : ∀ c, (t.info c).interface = (t'.info c).interface
  super : ∀ c, (t.info c).super = (t'.info c).super
  interfaces : ∀ c, (t.info c).interfaces = (t'.info c).interfaces
  methods : ∀ id, (t.method? id).map Method.header = (t'.method? id).map Method.header

variable {t t' : ClassTable} {c : String}

theorem receiverClass?_congr (h : ∀ c, (t.info c).interface = (t'.info c).interface) (type : Ty) :
    t.receiverClass? type = t'.receiverClass? type := by
  unfold receiverClass?
  simp only [h]

namespace SameDeclarations

theorem symm (h : t.SameDeclarations t') : t'.SameDeclarations t :=
  ⟨fun c => (h.interface c).symm, fun c => (h.super c).symm, fun c => (h.interfaces c).symm,
    fun id => (h.methods id).symm⟩

theorem of_info (h : ∀ c, t'.info c = t.info c) : t.SameDeclarations t' :=
  ⟨fun c => by rw [h], fun c => by rw [h], fun c => by rw [h],
    fun id => by rw [method?_congr (fun c => by rw [h])]⟩

theorem isSuper_eq (h : t.SameDeclarations t') :
    t'.IsSuper = t.IsSuper := isSuper_congr fun c => (h.super c).symm

theorem finiteChains (h : t.SameDeclarations t') (hf : t.FiniteChains) : t'.FiniteChains := by
  unfold FiniteChains
  rwa [h.isSuper_eq]

/-- One class may be replaced by one that declares the same. -/
theorem set {i : ClassInfo} (hinterface : i.interface = (t.info c).interface)
    (hsuper : i.super = (t.info c).super)
    (hinterfaces : i.interfaces = (t.info c).interfaces)
    (hmethods : ∀ id, (t.method? id).map Method.header = ((t.set c i).method? id).map
      Method.header) :
    t.SameDeclarations (t.set c i) := by
  refine ⟨fun d => ?_, fun d => ?_, fun d => ?_, hmethods⟩ <;> rw [info_set] <;> split_ifs with hd
  · rw [hd, hinterface]
  · rfl
  · rw [hd, hsuper]
  · rfl
  · rw [hd, hinterfaces]
  · rfl

/-- Giving a body to a method changes no declaration. -/
theorem setMethod {id : MethodId} {m m' : Method} (ht : t.Declared) (hm : t.method? id = some m)
    (hheader : m'.header = m.header) : t.SameDeclarations (t.setMethod m') := by
  refine set rfl rfl rfl fun id' => ?_
  show _ = ((t.setMethod m').method? id').map _
  rw [method?_setMethod]
  split_ifs with hid
  · have hid' : id' = id := by rw [hid, ← ht.id_eq hm, Method.id_eq_of_header_eq hheader]
    rw [hid', hm, Option.map_some, Option.map_some, hheader]
  · rfl

/-! ## Subtypes -/

section Subtypes

variable (h : t.SameDeclarations t') (ht : t.Complete) (ht' : t'.Complete)

include h ht ht'

theorem ancestors_eq (c : String) : t.ancestors c = t'.ancestors c := by
  refine ancestors_congr ht' ht (fun c => ?_) c
  unfold ClassInfo.supertypes
  rw [h.super, h.interfaces]

theorem isSubtype_eq (a b : Ty) : t.isSubtype a b = t'.isSubtype a b := by
  induction a generalizing b with
  | array e ih =>
    cases b with
    | array e' => rw [isSubtype, isSubtype, ih]
    | _ => rfl
  | cls c =>
    cases b with
    | cls d => rw [isSubtype, isSubtype, isSubclass, isSubclass, h.ancestors_eq ht ht']
    | _ => rfl
  | _ => rfl

end Subtypes

section Chains

variable (h : t.SameDeclarations t') {c : String} (hc : Acc t.IsSuper c)

include h hc

theorem chain_eq : t.chain c = t'.chain c := by
  have heq : ∀ n c, t.chainUpTo n c = t'.chainUpTo n c := by
    intro n
    induction n with
    | zero => exact fun c => rfl
    | succ n ih =>
      intro c
      cases hs : (t'.info c).super with
      | none => rw [chainUpTo_of_no_super ((h.super c).trans hs), chainUpTo_of_no_super hs]
      | some s => rw [chainUpTo_of_super ((h.super c).trans hs), chainUpTo_of_super hs, ih]
  rw [ClassTable.chain_eq hc (Nat.le_add_right _ t'.depth),
    ClassTable.chain_eq (h.isSuper_eq ▸ hc) (Nat.le_add_left _ t.depth), heq]

theorem superinterfaces_eq (ht : t.Complete) (ht' : t'.Complete) :
    t.superinterfaces c = t'.superinterfaces c := by
  have hnext : (fun c => (t.info c).interfaces) = fun c => (t'.info c).interfaces :=
    funext h.interfaces
  rw [ClassTable.superinterfaces_eq ht (Nat.le_add_right _ t'.size),
    ClassTable.superinterfaces_eq ht' (Nat.le_add_left _ t.size), hnext, h.chain_eq hc]

end Chains

/-! ## Resolutions -/

theorem kind_eq (h : t.SameDeclarations t') (type : Ty) : t.kind type = t'.kind type := by
  cases type with
  | cls c => rw [kind, kind, h.interface]
  | _ => rfl

theorem receiverClass?_eq (h : t.SameDeclarations t') (type : Ty) :
    t.receiverClass? type = t'.receiverClass? type :=
  receiverClass?_congr h.interface type

/-- A test that looks at the declaration of a method only. -/
theorem filter_method?_eq (h : t.SameDeclarations t') {p : Method → Bool}
    (hp : ∀ m, p m.header = p m)
    (id : MethodId) :
    ((t.method? id).filter p).map Method.header = ((t'.method? id).filter p).map Method.header := by
  have hmap : ∀ o : Option Method, (o.filter p).map Method.header =
      (o.map Method.header).filter p := by
    intro o
    cases o with
    | none => rfl
    | some m =>
      rw [Option.map_some, Option.filter_some, Option.filter_some, hp]
      split_ifs <;> rfl
  rw [hmap, hmap, h.methods]

theorem any_method?_eq (h : t.SameDeclarations t') {p : Method → Bool} (hp : ∀ m, p m.header = p m)
    (id : MethodId) : (t.method? id).any p = (t'.method? id).any p := by
  have hmap : ∀ o : Option Method, o.any p = (o.map Method.header).any p := by
    intro o
    cases o with
    | none => rfl
    | some m => exact (hp m).symm
  rw [hmap, h.methods, ← hmap]

theorem map_firstDeclaring_eq (h : t.SameDeclarations t') {α : Type} {p : Method → Bool}
    {f : Method → α}
    (hp : ∀ m, p m.header = p m) (hf : ∀ m, f m.header = f m) (subsig : String) (cs : List String) :
    (t.firstDeclaring p subsig cs).map f = (t'.firstDeclaring p subsig cs).map f := by
  have hmap : ∀ o : Option Method, o.map f = (o.map Method.header).map f := by
    intro o
    rw [Option.map_map]
    exact congrArg (o.map ·) (funext hf).symm
  have hfirst : (t.firstDeclaring p subsig cs).map Method.header =
      (t'.firstDeclaring p subsig cs).map Method.header := by
    unfold firstDeclaring
    rw [List.map_findSome?, List.map_findSome?]
    congr 1
    funext c
    exact h.filter_method?_eq hp _
  rw [hmap, hfirst, ← hmap]

section Selection

variable (h : t.SameDeclarations t') (ht : t.Complete) (ht' : t'.Complete)

include h ht ht'

theorem mostSpecific_eq {ds ds' : List Method}
    (hds : ds.map Method.header = ds'.map Method.header) :
    (t.mostSpecific ds).map Method.header = (t'.mostSpecific ds').map Method.header := by
  have hmap : ∀ (t : ClassTable) (ds : List Method),
      (t.mostSpecific ds).map Method.header = t.mostSpecific (ds.map Method.header) := by
    intro t ds
    unfold mostSpecific
    rw [List.filter_map]
    simp only [List.any_map]
    rfl
  rw [hmap, hmap, hds]
  unfold mostSpecific
  simp only [h.isSubtype_eq ht ht']

theorem mostSpecific_interfaceDeclarations_eq {c : String} (hc : Acc t.IsSuper c)
    (subsig : String) :
    (t.mostSpecific (t.interfaceDeclarations c subsig)).map Method.header =
      (t'.mostSpecific (t'.interfaceDeclarations c subsig)).map Method.header := by
  refine h.mostSpecific_eq ht ht' ?_
  unfold interfaceDeclarations
  rw [List.map_filterMap, List.map_filterMap, h.superinterfaces_eq hc ht ht']
  congr 1
  funext i
  exact h.filter_method?_eq (fun _ => rfl) _

theorem searched_eq {p : Method → Bool} {found : Method → Resolution}
    {pick : List Method → Resolution}
    {c : String} (hc : Acc t.IsSuper c) (hp : ∀ m, p m.header = p m)
    (hfound : ∀ m, found m.header = found m) (hpick : ∀ ds, pick (ds.map Method.header) = pick ds)
    (subsig : String) : t.searched t.mostSpecific p found pick c subsig =
      t'.searched t'.mostSpecific p found pick c subsig := by
  have hmost := h.mostSpecific_interfaceDeclarations_eq ht ht' hc subsig
  have hfirst := h.map_firstDeclaring_eq hp hfound subsig (t'.chain c)
  unfold searched
  rw [h.chain_eq hc, isEndless_congr h.super, ← hpick (t.mostSpecific _), hmost, hpick]
  generalize t.firstDeclaring p subsig (t'.chain c) = m at hfirst ⊢
  generalize t'.firstDeclaring p subsig (t'.chain c) = m' at hfirst ⊢
  cases m <;> cases m' <;> simp at hfirst ⊢
  exact hfirst

theorem resolveVirtual_eq {type : Ty} (hfinite : ∀ c ∈ t.receiverClass? type, Acc t.IsSuper c)
    (subsig : String) : t.resolveVirtual type subsig = t'.resolveVirtual type subsig := by
  rw [resolveVirtual_def, resolveVirtual_def]
  unfold chooseVirtual
  rw [← h.receiverClass?_eq, h.kind_eq]
  cases hrecv : t.receiverClass? type with
  | none => rfl
  | some c =>
    exact h.searched_eq ht ht' (hfinite c hrecv) (fun _ => rfl) (fun _ => rfl)
      (pickVirtual_map type subsig) subsig

theorem resolveMethod_eq {type : Ty} (hfinite : ∀ c, type = .cls c → Acc t.IsSuper c)
    (subsig : String) : t.resolveMethod type subsig = t'.resolveMethod type subsig := by
  rw [resolveMethod_def, resolveMethod_def, h.kind_eq]
  cases type with
  | cls c =>
    exact h.searched_eq ht ht' (hfinite c rfl) (fun _ => rfl) (fun _ => rfl)
      (pickMethod_map _ subsig) subsig
  | _ => rfl

theorem resolve_eq (hf : t.FiniteChains) (c : Call) (recv : Option Ty) :
    c.resolve t recv = c.resolve t' recv := by
  have hreq : ∀ {p : Method → Bool}, (∀ m, p m.header = p m) → ∀ type subsig reason,
      Call.require t type subsig p reason = Call.require t' type subsig p reason := by
    intro p hp type subsig reason
    funext r
    cases r with
    | error e => rfl
    | ok m => rw [Call.require, Call.require, h.any_method?_eq hp]
  unfold Call.resolve
  simp only [h.resolveVirtual_eq ht ht' fun c _ => hf.apply c, h.resolveMethod_eq ht ht'
    fun c _ => hf.apply c,
    hreq (p := fun m => m.static) (fun _ => rfl),
    hreq (p := fun m => !m.static && !m.abstract) (fun _ => rfl)]

end Selection

end SameDeclarations

end ClassTable

/-! ## Hierarchies that were asked after the last declaration -/

theorem Memo.Faithful.congr {t t' : ClassTable} {m : Memo} (hm : m.Faithful t)
    (h : t.SameDeclarations t') (ht : t.Complete) (ht' : t'.Complete) (hf : t.FiniteChains) :
    m.Faithful t' where
  subtypes hl := (hm.subtypes hl).trans (h.isSubtype_eq ht ht' _ _)
  virtuals hl := (h.resolveVirtual_eq ht ht' (fun c _ => hf.apply c) _).symm.trans (hm.virtuals hl)
  methods hl := (h.resolveMethod_eq ht ht' (fun c _ => hf.apply c) _).symm.trans (hm.methods hl)

namespace Hierarchy

/-- The hierarchies whose declarations have not changed since the first question. Classes may be
mentioned and bodies may change between questions. -/
inductive Steady : Hierarchy → Prop
  | declared {t : ClassTable} (ht : t.Declared) : Steady ⟨t, {}⟩
  | asked {h : Hierarchy} {memo : Memo} (hh : Steady h) (hm : Memo.Asked h.table h.memo memo) :
    Steady { h with memo }
  | mention {h : Hierarchy} (hh : Steady h) (name : String) :
    Steady { h with table := h.table.mention name }
  | body {h : Hierarchy} {id : MethodId} {m m' : Method} (hh : Steady h)
    (hm : h.table.method? id = some m) (hheader : m'.header = m.header) :
    Steady { h with table := h.table.setMethod m' }

variable {h : Hierarchy}

/-- A hierarchy that was not asked about. -/
theorem steady_of_memo_eq (ht : h.table.Declared) (hm : h.memo = {}) : h.Steady := by
  have heq : h = ⟨h.table, {}⟩ := by rw [← hm]
  rw [heq]
  exact .declared ht

theorem Steady.mentionAll (hh : h.Steady) (names : List String) :
    Steady { h with table := h.table.mentionAll names } := by
  induction names generalizing h with
  | nil => exact hh
  | cons name names ih => exact ih (hh.mention name)

theorem Steady.declared_table (hh : h.Steady) : h.table.Declared := by
  induction hh with
  | declared ht => exact ht
  | asked _ _ ih => exact ih
  | mention _ name ih => exact ih.mention name
  | body _ hm hheader ih => exact ih.body hm hheader

/-- The memory of a hierarchy that was asked after the last declaration cannot be noticed. -/
theorem Steady.faithful (hh : h.Steady) (hf : h.table.FiniteChains) : h.memo.Faithful h.table := by
  induction hh with
  | declared ht => exact Memo.faithful_empty _
  | asked _ hm ih => exact hm.faithful (ih hf)
  | @mention h hh name ih =>
    have ht := hh.declared_table
    have hsame : h.table.SameDeclarations (h.table.mention name) :=
      .of_info (ClassTable.info_mention _ _)
    have hf' := hsame.symm.finiteChains hf
    exact (ih hf').congr hsame ht.complete (ht.mention name).complete hf'
  | @body h id m m' hh hm hheader ih =>
    have ht := hh.declared_table
    have hsame := ClassTable.SameDeclarations.setMethod ht hm hheader
    have hf' := hsame.symm.finiteChains hf
    exact (ih hf').congr hsame ht.complete (ht.body hm hheader).complete hf'

end Hierarchy

end PointsTo
