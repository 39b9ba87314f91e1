import Mathlib.Data.List.Forall2
import PointsTo.Proofs.RoundTrip

/-!
# Programs that were read from a description are well-scoped

1. The variables that a method has by name bear that name and are its own (`Method.Added.filed`),
   and the fields that a class has by name bear that name and are its own
   (`ClassTable.Declared.filed`).
2. What a statement of a description means in a method is in scope (`StmtDesc.operation_scoped`):
   its operands are variables of the method, and its field is declared by a supertype of the class
   in which the statement looks for it.
3. The statements of a method are those of its descriptions, in order, and stay in scope while
   further descriptions of the method are read (`Description.Filled.fill`,
   `Description.build_inScope`).
4. So only some violations can be left (`Program.mayRemain_of_inScope`).
-/

namespace PointsTo

/-! ## Variables and fields by name -/

namespace Method

variable {m m' : Method}

/-- The variables that the method has by name bear that name and are its own. -/
def Filed (m : Method) : Prop := ∀ name v, m.var? name = some v → v.name = name ∧ v.owner = m.id

theorem Filed.congr (h : m.Filed) (hvars : m'.vars = m.vars) (hid : m'.id = m.id) : m'.Filed := by
  intro name v hv
  unfold var? at hv
  rw [hid]
  exact h name v (by rwa [hvars] at hv)

theorem Filed.newVar (hm : m.Filed) {name : String} {type : Option Ty} {v : Var}
    (h : m.newVar name type = .ok (v, m')) : m'.Filed := by
  obtain ⟨hself, hother, hv⟩ := var?_newVar h
  have hid : m'.id = m.id := id_eq_of_header_eq (header_newVar h)
  intro n x hx
  rw [hid]
  by_cases hn : n = name
  · obtain rfl : v = x := Option.some.inj (hself.symm.trans (hn ▸ hx))
    rcases hv with hv | ⟨-, rfl⟩
    · exact hn ▸ hm name v hv
    · exact ⟨hn.symm, rfl⟩
  · exact hm n x ((hother n hn).symm.trans hx)

theorem Filed.addFormals {names : List String} {ts : List Ty} :
    ∀ {i : Nat} {m m' : Method}, m.Filed →
    Method.addFormals names i ts m = .ok m' → m'.Filed := by
  induction ts with
  | nil =>
    intro i m m' hm h
    exact Except.ok.inj h ▸ hm
  | cons type ts ih =>
    intro i m m' hm h
    unfold Method.addFormals at h
    split at h
    · exact nomatch h
    · next hvar =>
      refine ih ?_ h
      exact (hm.newVar hvar).congr rfl rfl

theorem filed_ofDecl {cls : String} {d : MethodDecl} (h : ofDecl cls d = .ok m) : m.Filed := by
  have hempty : ∀ {m : Method}, m.vars = ∅ → m.Filed := by
    intro m hm name v hv
    unfold var? at hv
    rw [hm] at hv
    simp at hv
  unfold ofDecl at h
  dsimp only at h
  split_ifs at h
  · exact (hempty rfl).addFormals h
  · split at h
    · exact nomatch h
    · next hvar =>
      refine Filed.addFormals ?_ h
      exact ((hempty rfl).newVar hvar).congr rfl rfl

theorem Added.filed (hm : m.Added) : m.Filed := by
  induction hm with
  | decl h => exact filed_ofDecl h
  | newVar _ hok ih => exact ih.newVar hok
  | add _ op ih => exact ih.congr rfl rfl

end Method

namespace ClassTable

variable {t t' t'' : ClassTable}

/-- The tables have the same supertypes and fields. -/
structure SameShape (t t' : ClassTable) : Prop where
  supertypes : ∀ c, (t'.info c).supertypes = (t.info c).supertypes
  fields : ∀ c, (t'.info c).fields = (t.info c).fields

namespace SameShape

theorem of_info (h : ∀ c, t'.info c = t.info c) : t.SameShape t' :=
  ⟨fun c => by rw [h], fun c => by rw [h]⟩

theorem trans (h : t.SameShape t') (h' : t'.SameShape t'') : t.SameShape t'' :=
  ⟨fun c => (h'.supertypes c).trans (h.supertypes c), fun c => (h'.fields c).trans (h.fields c)⟩

theorem setMethod (t : ClassTable) (m : Method) : t.SameShape (t.setMethod m) := by
  have hinfo : ∀ c, ((t.setMethod m).info c).supertypes = (t.info c).supertypes ∧
      ((t.setMethod m).info c).fields = (t.info c).fields := by
    intro c
    unfold ClassTable.setMethod
    rw [info_set]
    split_ifs with hc
    · rw [hc]
      exact ⟨rfl, rfl⟩
    · exact ⟨rfl, rfl⟩
  exact ⟨fun c => (hinfo c).1, fun c => (hinfo c).2⟩

theorem isSupertype_eq (h : t.SameShape t') : t'.IsSupertype = t.IsSupertype := by
  funext c d
  unfold IsSupertype
  rw [h.supertypes]

theorem field?_eq (h : t.SameShape t') (cls name : String) :
    t'.field? cls name = t.field? cls name := by
  unfold field?
  rw [h.fields]

end SameShape

theorem fields_declare (t : ClassTable) (name : String) (d : ClassDecl) (c : String) :
    ((t.declare name d).info c).fields = (t.info c).fields := by
  unfold declare
  dsimp only
  rw [info_mentionAll, info_set]
  by_cases hc : c = name
  · rw [if_pos hc, hc]
  · rw [if_neg hc]

/-- The fields that a class has by name bear that name and are its own. -/
def Filed (t : ClassTable) : Prop :=
  ∀ cls name f, t.field? cls name = some f → f.cls = cls ∧ f.name = name

theorem Filed.congr (ht : t.Filed) (h : ∀ c, (t'.info c).fields = (t.info c).fields) :
    t'.Filed := by
  intro cls name f hf
  unfold field? at hf
  rw [h] at hf
  exact ht cls name f hf

theorem filed_initial : initial.Filed := by
  have hroot : Filed (ClassTable.set {} objectName { super := none, declared := true }) := by
    intro cls name f hf
    unfold field? at hf
    rw [info_set] at hf
    split_ifs at hf
    · simp at hf
    · simp [info, ClassInfo.mentioned] at hf
  unfold initial
  exact (hroot.congr (fields_declare _ _ _)).congr (fields_declare _ _ _)

theorem Filed.addField {on : Ty} {name : String} {type : Option Ty} {static : Bool} {f : Field}
    (ht : t.Filed)
    (h : t.addField on name type static = .ok (f, t')) : t'.Filed := by
  rcases addField_eq h with rfl | ⟨cls, rfl, rfl⟩
  · exact ht
  · intro cls' name' f' hf'
    unfold field? at hf'
    rw [info_set] at hf'
    split_ifs at hf' with hcls
    · rw [getElem?_insert] at hf'
      split_ifs at hf' with hname
      · obtain rfl := Option.some.inj hf'
        exact ⟨hcls.symm, hname.symm⟩
      · exact ht cls' name' f' (hcls ▸ hf')
    · exact ht cls' name' f' hf'

theorem Declared.filed (ht : t.Declared) : t.Filed := by
  induction ht with
  | initial => exact filed_initial
  | mention h name ih => exact ih.congr fun c => by rw [info_mention]
  | declare h name d ih => exact ih.congr (fields_declare _ name d)
  | addField h hok ih => exact ih.addField hok
  | addMethod h hok ih =>
    rcases addMethod_eq hok with rfl | ⟨cls, -, rfl⟩
    · exact ih
    · exact ih.congr (SameShape.setMethod _ _).fields
  | body h hm hheader ih => exact ih.congr (SameShape.setMethod _ _).fields

/-- The field that is found from a class is declared by a supertype. -/
theorem of_fieldByName (ht : t.Declared) {type : Ty} {name : String} {f : Field}
    (h : t.fieldByName type name = some f) :
    ∃ c, type = .cls c ∧ Relation.ReflTransGen t.IsSupertype c f.cls ∧
      t.field? f.cls f.name = some f ∧
      f.name = name := by
  unfold fieldByName at h
  split at h
  · next c =>
    obtain ⟨d, hd, hf⟩ := List.exists_of_findSome?_eq_some h
    obtain ⟨rfl, rfl⟩ := ht.filed d name f hf
    exact ⟨c, rfl, (mem_ancestors_iff ht.complete).mp hd, hf, rfl⟩
  · exact nomatch h

end ClassTable

/-! ## What a statement means is in scope -/

namespace Op

/-- The variables that the operation mentions. The receiver and the result of a call and the value
of a return may be left out. -/
def operands : Op → List (Option Var)
  | new x _ => [x]
  | assign x y => [x, y]
  | cast x y _ => [x, y]
  | load x b _ => [x, b]
  | store b _ y => [b, y]
  | staticLoad x _ => [x]
  | staticStore _ y => [y]
  | arrayLoad x b => [x, b]
  | arrayStore b y => [b, y]
  | call c => c.recv.toList.map some ++ c.result.toList.map some ++ c.args
  | ret v => v.toList.map some

/-- The type that an allocation or a cast has. -/
def type? : Op → Option (Option Ty)
  | new _ type => some type
  | cast _ _ type => some type
  | _ => none

/-- The base and the field of an operation that accesses one. -/
def access? : Op → Option (Option Var × Option Field)
  | load _ b f => some (b, f)
  | store b f _ => some (b, f)
  | staticLoad _ f => some (none, f)
  | staticStore f _ => some (none, f)
  | _ => none

end Op

/-- The variable is the one that the method has under its name, and is its own. -/
def Method.Registers (m : Method) (v : Var) : Prop := m.var? v.name = some v ∧ v.owner = m.id

/-- The class in which a statement looks for its field: the one that it names, else the one of its
base, else the one that it stands in. -/
inductive StmtDesc.LooksIn (d : StmtDesc) (m : Method) : Option Var → String → Prop
  | named {base : Option Var} (h : d.cls ≠ "") : LooksIn d m base d.cls
  | base {v : Var} {c : String} (h : d.cls = "") (hv : v.type = some (.cls c)) :
    LooksIn d m (some v) c
  | enclosing (h : d.cls = "") : LooksIn d m none m.cls

/-- The field has the name that the statement gives, and is declared by a supertype of the class in
which the statement looks for it. -/
def StmtDesc.Finds (t : ClassTable) (m : Method) (d : StmtDesc) (base : Option Var) (f : Field) :
    Prop :=
  f.name = d.field ∧ t.field? f.cls f.name = some f ∧
    ∃ c, d.LooksIn m base c ∧ Relation.ReflTransGen t.IsSupertype c f.cls

/-- The operation that a statement means in a method is in scope. -/
structure StmtDesc.Scoped (t : ClassTable) (m : Method) (d : StmtDesc) (op : Op) : Prop where
  operands : ∀ o ∈ op.operands, ∃ v, o = some v ∧ m.Registers v
  type : ∀ o ∈ op.type?, o.isSome
  field : ∀ base o, op.access? = some (base, o) → ∃ f, o = some f ∧ d.Finds t m base f
  call : ∀ c, op = .call c → c.ref.cls.isSome ∧ c.ref.ret.isSome ∧ c.ref.name ≠ "" ∧
    c.kind ∈ [CallKind.static, .special, .virtual, .interface]

namespace StmtDesc

variable {t t' : ClassTable} {m m' : Method} {d : StmtDesc} {op : Op}

/-- What is in scope stays so while variables are declared. -/
theorem Scoped.mono (h : d.Scoped t m op) (hshape : t.SameShape t') (hid : m'.id = m.id)
    (hvars : ∀ name v, m.var? name = some v → m'.var? name = some v) : d.Scoped t' m' op where
  operands o ho := by
    obtain ⟨v, rfl, hv, howner⟩ := h.operands o ho
    exact ⟨v, rfl, hvars _ v hv, howner.trans hid.symm⟩
  type := h.type
  field base o hop := by
    have hcls : m'.cls = m.cls := congrArg MethodId.cls hid
    obtain ⟨f, rfl, hname, hfield, c, hlooks, hsuper⟩ := h.field base o hop
    refine ⟨f, rfl, hname, by rwa [hshape.field?_eq], c, ?_, by rwa [hshape.isSupertype_eq]⟩
    cases hlooks with
    | named h => exact .named h
    | base h hv => exact .base h hv
    | enclosing h => exact hcls ▸ .enclosing h
  call := h.call

section Parts

variable (hm : m.Filed)

include hm

theorem var_registers (name : String) : Yields m.Registers (var m name) := by
  unfold var
  split_ifs
  · exact .error _
  · split
    · next v hv =>
      obtain ⟨hname, howner⟩ := hm name v hv
      exact .ok ⟨hname ▸ hv, howner⟩
    · exact .error _

theorem optionalVar_registers (name : String) :
    Yields (fun o => ∀ v ∈ o, m.Registers v) (optionalVar m name) := by
  unfold optionalVar
  split_ifs
  · exact .ok nofun
  · intro o ho
    cases hvar : var m name with
    | error e =>
      rw [hvar] at ho
      exact nomatch ho
    | ok v =>
      rw [hvar] at ho
      obtain rfl := Except.ok.inj ho
      intro v' hv'
      exact Option.some.inj hv' ▸ var_registers hm name v hvar

theorem mapM_registers (names : List String) :
    Yields (fun vs => ∀ v ∈ vs, m.Registers v) (names.mapM (var m)) := by
  induction names with
  | nil => exact .ok fun v hv => absurd hv List.not_mem_nil
  | cons name names ih =>
    rw [List.mapM_cons]
    exact (var_registers hm name).bind fun v hv => ih.bind
      fun vs hvs => .ok (List.forall_mem_cons.mpr ⟨hv, hvs⟩)

end Parts

theorem fieldOf_finds (ht : t.Declared) (m : Method) (d : StmtDesc) (base : Option Var) :
    Yields (d.Finds t m base) (d.fieldOf t m base) := by
  unfold fieldOf
  dsimp only
  split
  · next f hf =>
    obtain ⟨type, htype, hf⟩ := Option.bind_eq_some_iff.mp hf
    obtain ⟨c, rfl, hsuper, hfield, hname⟩ := ClassTable.of_fieldByName ht hf
    refine .ok ⟨hname, hfield, c, ?_, hsuper⟩
    split_ifs at htype with hcls
    · obtain rfl := Ty.cls.inj (Option.some.inj htype)
      exact .named hcls
    · rw [not_not] at hcls
      cases base with
      | some v => exact .base hcls htype
      | none =>
        obtain rfl := Ty.cls.inj (Option.some.inj htype)
        exact .enclosing hcls
  · exact .error _

theorem call_scoped (hm : m.Filed) (d : StmtDesc) (t : ClassTable) :
    Yields (fun r => d.Scoped t m (.call r.1)) (d.call m) := by
  unfold call
  dsimp only
  split
  · next kind hkind =>
    refine .bind (q := fun k => k ∈ [CallKind.static, .special, .virtual, .interface])
      (.ok (List.mem_of_find?_eq_some hkind)) fun kind hkind => ?_
    split
    · next target htarget =>
      have hname : target.sub.name ≠ "" := fun hempty =>
        (Signature.canonical_of_readSignature htarget).1.sub.solid_name.ne_nil (by rw [hempty]; rfl)
      refine .bind (q := fun s : Signature => s.sub.name ≠ "") (.ok hname) fun target hname => ?_
      refine (optionalVar_registers hm d.recv).bind fun recv hrecv => ?_
      refine (mapM_registers hm d.args).bind fun args hargs => ?_
      refine (optionalVar_registers hm d.lhs).bind fun result hresult => .ok ?_
      refine ⟨fun o ho => ?_, nofun, nofun, fun c hc => ?_⟩
      · have hmem : ∃ v, o = some v ∧ (v ∈ recv ∨ v ∈ result ∨ v ∈ args) := by
          simpa [Op.operands, or_assoc, eq_comm, and_or_left, exists_or, and_comm] using ho
        obtain ⟨v, rfl, hv | hv | hv⟩ := hmem
        · exact ⟨v, rfl, hrecv v hv⟩
        · exact ⟨v, rfl, hresult v hv⟩
        · exact ⟨v, rfl, hargs v hv⟩
      · obtain rfl := Op.call.inj hc
        exact ⟨rfl, rfl, hname, hkind⟩
    · exact .error _
  · exact .error _

theorem scoped_of_operands (hop : ∀ o ∈ op.operands, ∃ v, o = some v ∧ m.Registers v)
    (htype : ∀ o ∈ op.type?, o.isSome) (haccess : op.access? = none) (hcall : op.call? = none) :
      d.Scoped t m op where
  operands := hop
  type := htype
  field base o h := nomatch haccess.symm.trans h
  call c h := by
    rw [h] at hcall
    exact nomatch hcall

theorem scoped_of_access {base : Option Var} {f : Field}
    (hop : ∀ o ∈ op.operands, ∃ v, o = some v ∧ m.Registers v)
    (haccess : op.access? = some (base, some f)) (hf : d.Finds t m base f) (htype : op.type? = none)
    (hcall : op.call? = none) : d.Scoped t m op where
  operands := hop
  type o ho := nomatch htype.symm.trans ho
  field base' o h := by
    obtain ⟨rfl, rfl⟩ := Prod.mk.inj (Option.some.inj (haccess.symm.trans h))
    exact ⟨f, rfl, hf⟩
  call c h := by
    rw [h] at hcall
    exact nomatch hcall

/-- What a statement means is in scope. -/
theorem operation_scoped (ht : t.Declared) (hm : m.Filed) (d : StmtDesc) :
    Yields (fun r => d.Scoped t m r.1) (d.operation t m) := by
  have hvar := var_registers hm
  have hfield := fieldOf_finds ht m d
  have hone : ∀ {v : Var}, m.Registers v →
      ∀ o ∈ [some v], ∃ v, o = some v ∧ m.Registers v := by simp
  have htwo : ∀ {v w : Var}, m.Registers v → m.Registers w →
      ∀ o ∈ [some v, some w], ∃ v, o = some v ∧ m.Registers v := by
    simp +contextual
  unfold operation
  dsimp only
  generalize (if d.cls ≠ "" then [Ty.cls d.cls] else []) = classes
  split
  -- new, assign, cast
  · refine (hvar _).bind fun x hx => .bind_any fun type => .ok ?_
    exact scoped_of_operands (hone hx) (by simp [Op.type?]) rfl rfl
  · refine (hvar _).bind fun x hx => (hvar _).bind fun y hy => .ok ?_
    exact scoped_of_operands (htwo hx hy) nofun rfl rfl
  · refine (hvar _).bind fun x hx => (hvar _).bind fun y hy => .bind_any fun type => .ok ?_
    exact scoped_of_operands (htwo hx hy) (by simp [Op.type?]) rfl rfl
  -- load and store, of a static field or of an object
  · split_ifs
    · refine (hvar _).bind fun x hx => (hfield none).bind fun f hf => .ok ?_
      exact scoped_of_access (hone hx) rfl hf rfl rfl
    · refine (hvar _).bind fun b hb => (hvar _).bind fun x hx => (hfield (some b)).bind
        fun f hf => .ok ?_
      exact scoped_of_access (htwo hx hb) rfl hf rfl rfl
  · split_ifs
    · refine (hfield none).bind fun f hf => (hvar _).bind fun y hy => .ok ?_
      exact scoped_of_access (hone hy) rfl hf rfl rfl
    · refine (hvar _).bind fun b hb => (hfield (some b)).bind fun f hf => (hvar _).bind
        fun y hy => .ok ?_
      exact scoped_of_access (htwo hb hy) rfl hf rfl rfl
  -- elements of arrays
  · refine (hvar _).bind fun x hx => (hvar _).bind fun b hb => .ok ?_
    exact scoped_of_operands (htwo hx hb) nofun rfl rfl
  · refine (hvar _).bind fun b hb => (hvar _).bind fun y hy => .ok ?_
    exact scoped_of_operands (htwo hb hy) nofun rfl rfl
  · exact (call_scoped hm d t).bind fun r hr => .ok hr
  · refine (optionalVar_registers hm _).bind fun y hy => .ok ?_
    exact scoped_of_operands (by simpa [Op.operands] using hy) nofun rfl rfl
  · exact .error _

end StmtDesc

/-! ## Bodies -/

/-- The statement is what a description means in the method, and in scope there. -/
def StmtDesc.InScope (t : ClassTable) (m : Method) (d : StmtDesc) (s : Stmt) : Prop :=
  s.parent = m.id ∧ d.Scoped t m s.op

theorem StmtDesc.InScope.mono {t t' : ClassTable} {m m' : Method} {d : StmtDesc} {s : Stmt}
    (h : d.InScope t m s)
    (hshape : t.SameShape t') (hid : m'.id = m.id)
    (hvars : ∀ name v, m.var? name = some v → m'.var? name = some v) : d.InScope t' m' s :=
  ⟨h.1.trans hid.symm, h.2.mono hshape hid hvars⟩

namespace Description

/-- The statements that are described for a method. -/
def stmtsFor (id : MethodId) (bodies : List (Option MethodId × MethodDesc)) : List StmtDesc :=
  bodies.flatMap fun b => if b.1 = some id then b.2.body else []

/-- The statements that the description gives for a method, from all descriptions of the method in
order. -/
def statementsOf (d : Description) (id : MethodId) : List StmtDesc :=
  stmtsFor id ((methodsOf d.classes).map fun x => (x.2.id? x.1.name, x.2))

/-- Declaring local variables keeps the variables of a method. -/
theorem addLocals_vars {ls : List (String × String)} : ∀ {m : Method} {t : ClassTable},
    Yields (fun r => r.1.id = m.id ∧ r.1.body = m.body ∧ ∀ name v, m.var? name = some v →
      r.1.var? name = some v)
      (addLocals ls m t) := by
  induction ls with
  | nil => exact .ok ⟨rfl, rfl, fun _ _ h => h⟩
  | cons l ls ih =>
    intro m t
    unfold addLocals
    split_ifs with hvar
    · exact .error _
    · dsimp only
      split
      · exact .error _
      · next v m' hok =>
        intro r hr
        obtain ⟨hid, hbody, hvars⟩ := ih r hr
        have hid' : m'.id = m.id := Method.id_eq_of_header_eq (Method.header_newVar hok)
        obtain ⟨-, hother, -⟩ := Method.var?_newVar hok
        obtain ⟨vars, rfl⟩ := Method.newVar_eq hok
        refine ⟨hid.trans hid', hbody, fun name x hx => hvars name x ?_⟩
        -- the new name was not taken
        have hne : name ≠ l.1 := by
          rintro rfl
          exact hvar (by rw [hx]; rfl)
        rw [hother name hne, hx]

/-- The statements that are added are those that are described. -/
theorem addStmts_inScope {ds : List StmtDesc} :
    ∀ {i : Nat} {m : Method} {t : ClassTable}, t.Loaded → m.Filed →
    Yields (fun r => r.1.id = m.id ∧ r.1.vars = m.vars ∧
      ∃ stmts, r.1.body = m.body ++ stmts ∧ List.Forall₂ (StmtDesc.InScope t m) ds stmts)
        (addStmts i ds m t) := by
  induction ds with
  | nil => exact fun _ _ => .ok ⟨rfl, rfl, [], (List.append_nil _).symm, .nil⟩
  | cons d ds ih =>
    intro i m t ht hm
    unfold addStmts
    split
    · exact .error _
    · next op types hop =>
      intro r hr
      have hm' : (m.add op).Filed := hm.congr rfl rfl
      obtain ⟨hid, hvars, stmts, hbody, hstmts⟩ := ih (ht.mentionTypes types) hm' r hr
      have hhere : d.InScope t m ⟨⟨m.id, m.added⟩, op⟩ :=
        ⟨rfl, d.operation_scoped ht.declared hm _ hop⟩
      have hback : (t.mentionTypes types).SameShape t :=
        .of_info fun c => (ClassTable.info_mentionTypes ..).symm
      refine ⟨hid, hvars, ⟨⟨m.id, m.added⟩, op⟩ :: stmts, ?_,
        .cons hhere (hstmts.imp fun _ _ h => ?_)⟩
      · rw [hbody]
        exact List.append_assoc ..
      · exact h.mono hback rfl fun _ _ hv => hv

/-- The methods of the table have the statements that were described for them so far. -/
structure Filled (done : List (MethodId × MethodDesc)) (t : ClassTable) : Prop where
  loaded : t.Loaded
  bodies : ∀ id m, t.method? id = some m →
    List.Forall₂ (StmtDesc.InScope t m) (stmtsFor id (done.map fun b => (some b.1, b.2))) m.body

theorem stmtsFor_concat (id id' : MethodId) (done : List (MethodId × MethodDesc)) (d : MethodDesc) :
    stmtsFor id ((done ++ [(id', d)]).map fun b => (some b.1, b.2)) =
      stmtsFor id (done.map fun b => (some b.1, b.2)) ++ if id' = id then d.body else [] := by
  unfold stmtsFor
  simp

/-- Filling in a body adds its statements to one method and leaves the others as they are. -/
theorem Filled.fill {t : ClassTable} {done : List (MethodId × MethodDesc)} {id : MethodId}
    {d : MethodDesc}
    {m : Method} {r r' : Method × ClassTable} (h : Filled done t) (hm : t.method? id = some m)
    (hr : addLocals d.locals m t = .ok r) (hr' : addStmts 0 d.body r.1 r.2 = .ok r') :
    Filled (done ++ [(id, d)]) (r'.2.setMethod r'.1) := by
  have hstart : Growing id m (m, t) := ⟨rfl, h.loaded.methods id m hm, h.loaded, hm⟩
  have hgrown := addLocals_growing hstart r hr
  obtain ⟨hid, hbody, hvars⟩ := addLocals_vars r hr
  obtain ⟨hid', hvars', stmts, hbody', hstmts⟩ :=
    addStmts_inScope hgrown.loaded hgrown.readable.added.filed r' hr'
  have hinfo : ∀ c, r'.2.info c = r.2.info c := info_addStmts r' hr'
  have hinfo' : ∀ c, r'.2.info c = t.info c := fun c => (hinfo c).trans (info_addLocals r hr c)
  have hshape : t.SameShape (r'.2.setMethod r'.1) := .trans (.of_info hinfo') (.setMethod _ _)
  have hkeep : ∀ name v, r.1.var? name = some v → r'.1.var? name = some v := by
    unfold Method.var?
    rw [hvars']
    exact fun _ _ h => h
  have hself : r'.1.id = id := by rw [hid', hid, h.loaded.declared.id_eq hm]
  refine ⟨(fill_loaded h.loaded hm hr hr').1, fun id₁ m₁ hm₁ => ?_⟩
  rw [stmtsFor_concat]
  rw [ClassTable.method?_setMethod, hself] at hm₁
  by_cases hid₁ : id₁ = id
  · rw [if_pos hid₁] at hm₁
    obtain rfl := Option.some.inj hm₁
    subst hid₁
    rw [if_pos rfl, hbody', hbody]
    refine List.rel_append ((h.bodies id₁ m hm).imp fun _ _ hs => ?_) (hstmts.imp fun _ _ hs => ?_)
    · exact hs.mono hshape (hid'.trans hid) fun name v hv => hkeep name v (hvars name v hv)
    · exact hs.mono (.trans (.of_info hinfo) (.setMethod _ _)) hid' hkeep
  · rw [if_neg hid₁, ClassTable.method?_congr fun c => congrArg ClassInfo.methods (hinfo' c)] at hm₁
    rw [if_neg (Ne.symm hid₁), List.append_nil]
    exact (h.bodies id₁ m₁ hm₁).imp fun _ _ hs => hs.mono hshape rfl fun _ _ hv => hv

/-- Bodies that are described for no method of the table add nothing. -/
theorem Filled.skip {t : ClassTable} {done : List (MethodId × MethodDesc)} {id : MethodId}
    {d : MethodDesc}
    (h : Filled done t) (hnone : t.method? id = none) : Filled (done ++ [(id, d)]) t := by
  refine ⟨h.loaded, fun id₁ m₁ hm₁ => ?_⟩
  have hne : id ≠ id₁ := by
    rintro rfl
    exact nomatch hnone.symm.trans hm₁
  rw [stmtsFor_concat, if_neg hne, List.append_nil]
  exact h.bodies id₁ m₁ hm₁

/-! ## Entries -/

/-- The entries are methods of the program. -/
def Entered (p : Program) : Prop :=
  ∀ e ∈ p.entries, ∃ id m, e = some id ∧ p.table.method? id = some m

theorem method?_of_lookup {p p' : Program} {signature : String} {id : MethodId}
    (h : p.lookup signature = (.ok id, p')) : ∃ m, p'.table.method? id = some m := by
  unfold Program.lookup at h
  dsimp only at h
  split at h
  · exact nomatch h
  · split at h
    · next m hm =>
      obtain ⟨hid, rfl⟩ := Prod.mk.inj h
      obtain rfl := Except.ok.inj hid
      exact ⟨m, hm⟩
    · exact nomatch h

theorem addEntries_entered {es : List String} :
    ∀ {p : Program}, Entered p → Yields Entered (addEntries es p) := by
  induction es with
  | nil => exact fun h => .ok h
  | cons e es ih =>
    intro p hp
    unfold addEntries
    split
    · exact .error _
    · next id p' hlookup =>
      refine ih fun e' he' => ?_
      have hp' : p' = p.mentionTypes (Signature.readSignature e.toList).mentions := by
        rw [← Program.snd_lookup, hlookup]
      rcases List.mem_append.mp he' with he' | he'
      · subst hp'
        obtain ⟨id', m', rfl, hm'⟩ := hp e' he'
        exact ⟨id', m', rfl, (ClassTable.method?_mentionTypes ..).trans hm'⟩
      · obtain ⟨m, hm⟩ := method?_of_lookup hlookup
        exact ⟨id, m, List.mem_singleton.mp he', hm⟩

/-! ## Programs -/

/-- The statements of a program are those of its description, in scope, and the entries are methods
of the program. -/
theorem build_inScope (d : Description) :
    Yields (fun p => Entered p ∧ ∀ id m, p.table.method? id = some m →
      List.Forall₂ (StmtDesc.InScope p.table m) (d.statementsOf id) m.body) d.build := by
  have hempty : ∀ c md m, MethodDesc.Declares c md m → m.body = [] := by
    rintro c md m ⟨sub, -, hdecl⟩
    obtain ⟨receiver, vars, formals, -, -, -, rfl⟩ := Method.ofDecl_eq hdecl
    rfl
  unfold build
  have hclasses : Yields (fun t => t.Loaded ∧ t.Methods fun m => m.body = [])
      (declareClasses d.classes .initial) :=
    fun t hok => ⟨declareClasses_loaded .initial t hok, declareClasses_methods .initial t hok⟩
  refine hclasses.bind fun t h => ?_
  obtain ⟨ht, hq⟩ := h
  refine (declareMembers_declaring ht hq fun x _ m hm => hempty x.1 x.2 m hm).bind fun r hr => ?_
  have hstart : Filled [] r.2 := ⟨hr.loaded, fun id m hm => by rw [hr.methods id m hm]; exact .nil⟩
  have hrun :=
    addBodies_induction (fun hnone h => h.skip hnone) (fun hm h => h.fill hm) r.1 [] hstart
  refine hrun.bind fun t' ht' p hok => ?_
  have hinfo : ∀ c, p.table.info c = t'.info c := info_addEntries p hok
  refine ⟨addEntries_entered (fun e he => absurd he List.not_mem_nil) p hok, fun id m hm => ?_⟩
  rw [ClassTable.method?_congr fun c => congrArg ClassInfo.methods (hinfo c)] at hm
  have hbody := ht'.bodies id m hm
  rw [List.nil_append, hr.bodies] at hbody
  exact hbody.imp fun _ _ hs => hs.mono (.of_info hinfo) rfl fun _ _ hv => hv

end Description

/-! ## Violations that may be left -/

/-- Defects that a statement in scope may have: it allocates what cannot be allocated, takes a
static field for one of an object or the other way round, or gives a call the wrong arguments or
receiver. -/
def Defect.mayRemain : Defect → Bool
  | cannotAllocate kind _ => kind ∈ [Kind.interface, .primitive, .null]
  | abstractClass _ | staticAsInstance _ | instanceAsStatic _ | arguments .. | staticWithReceiver
  | withoutReceiver _ => true
  | otherMethod | missingVariable | undeclared
    _ | allocationWithoutType | castWithoutType | missingField
  | incompleteReference => false

/-- Violations that a program in scope may have. -/
def Violation.mayRemain : Violation → Bool
  | noEntry | entryWithoutBody _ | statementsWithoutBody _ => true
  | absentEntry => false
  | statement _ _ d => d.mayRemain

namespace Method

variable {t : ClassTable} {m : Method} {s : Stmt} {d : Defect}

section Sequence

variable {ε : Type} {f : PUnit → Except ε Unit} {e : ε}

theorem of_seq_eq_error {x : Except ε Unit} (h : (x >>= f) = .error e) :
    x = .error e ∨ f () = .error e := by
  cases x with
  | error e' => exact Or.inl h
  | ok _ => exact Or.inr h

theorem of_guard_eq_error {p : Prop} [Decidable p] {e' : ε}
    (h : (if p then throw e' >>= f else f ()) = .error e) : p ∧ e' = e ∨ f () = .error e := by
  split_ifs at h with hp
  · exact Or.inl ⟨hp, Except.error.inj h⟩
  · exact Or.inr h

end Sequence

theorem checkVars_of_registers {vs : List (Option Var)}
    (h : ∀ o ∈ vs, ∃ v, o = some v ∧ m.Registers v) :
    m.checkVars vs = .ok () := by
  induction vs with
  | nil => rfl
  | cons o vs ih =>
    obtain ⟨v, rfl, hvar, howner⟩ := h o List.mem_cons_self
    rw [checkVars, if_pos ⟨howner, hvar⟩]
    exact ih fun o ho => h o (List.mem_cons_of_mem _ ho)

theorem mayRemain_of_checkField {static : Bool} {f : Field}
    (h : checkField static (some f) = .error d) :
    d.mayRemain := by
  unfold checkField at h
  dsimp only at h
  split_ifs at h
  · exact Except.error.inj h ▸ rfl
  · exact Except.error.inj h ▸ rfl

theorem mayRemain_of_checkAllocation {type : Ty} (h : checkAllocation t (some type) = .error d) :
    d.mayRemain := by
  unfold checkAllocation at h
  dsimp only at h
  split at h
  · exact nomatch h
  · split at h
    · split_ifs at h
      exact Except.error.inj h ▸ rfl
    · exact nomatch h
  · next harray hcls =>
    obtain rfl := Except.error.inj h
    cases hkind : t.kind type with
    | cls => exact absurd hkind hcls
    | array => exact absurd hkind harray
    | _ => rfl

theorem mayRemain_of_checkCall {c : Call} (hcls : c.ref.cls.isSome) (hret : c.ref.ret.isSome)
    (hname : c.ref.name ≠ "")
    (hvars : m.checkVars (c.recv.toList.map some ++ c.result.toList.map some ++ c.args) = .ok ())
    (h : m.checkCall c = .error d) : d.mayRemain := by
  unfold checkCall at h
  rcases of_guard_eq_error h with ⟨hmissing, -⟩ | h
  · simp [Option.isSome_iff_ne_none.mp hcls, Option.isSome_iff_ne_none.mp hret, hname] at hmissing
  rcases of_guard_eq_error h with ⟨-, rfl⟩ | h
  · rfl
  rcases of_guard_eq_error h with ⟨-, rfl⟩ | h
  · rfl
  rcases of_guard_eq_error h with ⟨-, rfl⟩ | h
  · rfl
  exact nomatch hvars.symm.trans h

/-- A statement in scope has no other defects. -/
theorem mayRemain_of_checkStmt {sd : StmtDesc} (hs : sd.InScope t m s)
    (h : m.checkStmt t s = .error d) :
    d.mayRemain := by
  obtain ⟨hparent, hscoped⟩ := hs
  obtain ⟨id, op⟩ := s
  have hvars : m.checkVars op.operands = .ok () := checkVars_of_registers hscoped.operands
  have hsome : ∀ {o}, op.type? = some o → o.isSome := fun ho => hscoped.type _ ho
  unfold checkStmt at h
  rcases of_guard_eq_error h with ⟨hother, -⟩ | hop
  · exact absurd hparent hother
  clear h
  have hno : m.checkVars op.operands ≠ .error d := fun herror => nomatch hvars.symm.trans herror
  cases op with
  | new x type =>
    obtain ⟨type, rfl⟩ := Option.isSome_iff_exists.mp (hsome rfl)
    exact mayRemain_of_checkAllocation ((of_seq_eq_error hop).resolve_right hno)
  | cast x y type =>
    obtain ⟨type, rfl⟩ := Option.isSome_iff_exists.mp (hsome rfl)
    exact absurd hop hno
  | load x b f | store b f y | staticLoad x f | staticStore f y =>
    obtain ⟨f, rfl, -⟩ := hscoped.field _ _ rfl
    exact mayRemain_of_checkField ((of_seq_eq_error hop).resolve_right hno)
  | call c =>
    obtain ⟨hcls, hret, hname, -⟩ := hscoped.call c rfl
    exact mayRemain_of_checkCall hcls hret hname hvars hop
  | assign x y | arrayLoad x b | arrayStore b y | ret v => exact absurd hop hno

end Method

namespace Program

variable {p : Program}

/-- A program whose statements and entries are in scope has no other violations. -/
theorem mayRemain_of_inScope (hentries : Description.Entered p)
    (hbodies : ∀ m ∈ p.methods, ∀ s ∈ m.body, ∃ sd : StmtDesc, sd.InScope p.table m s) :
    ∀ v ∈ p.violations, v.mayRemain := by
  intro v hv
  unfold violations at hv
  rcases List.mem_append.mp hv with hv | hv
  · rcases List.mem_append.mp hv with hv | hv
    · split_ifs at hv
      · exact List.mem_singleton.mp hv ▸ rfl
      · exact absurd hv List.not_mem_nil
    · obtain ⟨e, he, hviolation⟩ := List.mem_filterMap.mp hv
      obtain ⟨id, m, rfl, -⟩ := hentries e he
      unfold entryViolation? at hviolation
      dsimp only at hviolation
      split_ifs at hviolation
      exact Option.some.inj hviolation ▸ rfl
  · obtain ⟨m, hm, hv⟩ := List.mem_flatMap.mp hv
    unfold Method.violations at hv
    rcases List.mem_append.mp hv with hv | hv
    · split_ifs at hv
      · exact List.mem_singleton.mp hv ▸ rfl
      · exact absurd hv List.not_mem_nil
    · obtain ⟨s, hs, hviolation⟩ := List.mem_filterMap.mp hv
      obtain ⟨sd, hsd⟩ := hbodies m hm s hs
      split at hviolation
      · next d hd =>
        obtain rfl := Option.some.inj hviolation
        exact Method.mayRemain_of_checkStmt hsd hd
      · exact nomatch hviolation

end Program

namespace Description

theorem exists_of_mem_right {α β : Type} {R : α → β → Prop} {l : List α} {l' : List β}
    (h : List.Forall₂ R l l') :
    ∀ b ∈ l', ∃ a, R a b := by
  induction h with
  | nil => exact fun b hb => absurd hb List.not_mem_nil
  | cons hr _ ih => exact List.forall_mem_cons.mpr ⟨⟨_, hr⟩, ih⟩

/-- The statements of the methods of a loaded program are those of the description, in order and in
scope. Its entries are methods of the program. So violations can only be about entries, bodies and
the use of types, fields and methods. -/
theorem build_wellScoped {d : Description} {p : Program} (h : d.build = .ok p) :
    (∀ m ∈ p.methods, List.Forall₂ (StmtDesc.InScope p.table m) (d.statementsOf m.id) m.body) ∧
    (∀ e ∈ p.entries, ∃ m ∈ p.methods, e = some m.id) ∧
    ∀ v ∈ p.violations, v.mayRemain := by
  obtain ⟨hentries, hbodies⟩ := d.build_inScope p h
  have hdeclared := (steady_of_build h).declared_table
  have hmethods : ∀ m ∈ p.methods, List.Forall₂ (StmtDesc.InScope p.table m) (d.statementsOf m.id)
      m.body := by
    intro m hm
    obtain ⟨id, hid⟩ := ClassTable.exists_method?_of_mem (Text.mem_sortBy.mp hm)
    rw [hdeclared.id_eq hid]
    exact hbodies id m hid
  refine ⟨hmethods, fun e he => ?_,
    Program.mayRemain_of_inScope hentries fun m hm => exists_of_mem_right (hmethods m hm)⟩
  obtain ⟨id, m, rfl, hm⟩ := hentries e he
  have hmem : m ∈ p.methods := Text.mem_sortBy.mpr (ClassTable.mem_methods_of_method? hm)
  exact ⟨m, hmem, by rw [hdeclared.id_eq hm]⟩

/-- A class that is described twice. Both descriptions give statements to its method, the second one
with a variable of the first and with a field of the superclass. The allocation is of an abstract
class. -/
def halves : Description where
  entries := ["<Main: void main()>"]
  classes := [
    ⟨"Base", "", [], false, true, [⟨"link", "Base", false⟩], []⟩,
    ⟨"Main", "Base", [], false, false, [],
      [⟨"void main()", [], true, false, false, [("a", "Main"), ("b", "Base")], [
        { blank with op := "new", lhs := "b", type := "Base" }]⟩]⟩,
    ⟨"Main", "Base", [], false, false, [],
      [⟨"void  main( )", [], true, false, false, [("c", "Base")], [
        { blank with op := "store", base := "a", field := "link", rhs := "b" },
        { blank with op := "load", lhs := "c", base := "b", cls := "Main", field := "link" }]⟩]⟩]

/-- The program that `halves` describes. -/
def halvesProgram : Program := halves.build.toOption.getD {}

theorem build_halves : halves.build = .ok halvesProgram := eq_ok_of_isSome (by decide +kernel) {}

theorem build_wellScoped_halves :
    (∃ m ∈ halvesProgram.methods, m.body.length = 3 ∧ (halves.statementsOf m.id).length = 3 ∧
      List.Forall₂ (StmtDesc.InScope halvesProgram.table m) (halves.statementsOf m.id) m.body) ∧
    ∃ v ∈ halvesProgram.violations, v.mayRemain := by
  obtain ⟨hmethods, -, hviolations⟩ := build_wellScoped build_halves
  have hsome : (halvesProgram.table.method? ⟨"Main", "void main()"⟩).any
      fun m => m.body.length = 3 := by
    decide +kernel
  obtain ⟨m, hm, hlength⟩ := (Option.any_eq_true _ _).mp hsome
  have hmem : m ∈ halvesProgram.methods :=
    Text.mem_sortBy.mpr (ClassTable.mem_methods_of_method? hm)
  have hlength' : m.body.length = 3 := of_decide_eq_true hlength
  have hexists : halvesProgram.violations ≠ [] := by decide +kernel
  obtain ⟨v, hv⟩ := List.exists_mem_of_ne_nil _ hexists
  exact ⟨⟨m, hmem, hlength', (hmethods m hmem).length_eq.trans hlength', hmethods m hmem⟩, v, hv,
    hviolations v hv⟩

end Description

end PointsTo
