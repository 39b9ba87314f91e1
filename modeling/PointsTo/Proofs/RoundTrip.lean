import PointsTo.Proofs.Members
import PointsTo.Proofs.Validation

/-!
# Signatures are read as they are written

Reading is lenient about blanks and writing is not, so a text may differ from the text of what it is
read as. Reading again what was written changes nothing: what was read from some text is
`Canonical`, and the text of a canonical subsignature or signature is read as it.

1. A type that was read has a name without a blank at either end (`Ty.solid_name_ofChars`).
2. In the text of a canonical subsignature every separator is the first of its sort
   (`Subsig.Canonical.readSubsig_text`).
3. In the text of a canonical signature the same holds of the colon after the class
   (`Canonical.readSignature_text`).
-/

namespace PointsTo

open Text (Solid)

/-! ## Names of types -/

namespace Ty

/-- A type that was read from a text that is not blank has a name without a blank at either end. -/
theorem solid_name_ofChars {cs : List Char} (h : ∃ c ∈ cs, Text.isBlank c = false) :
    Solid (ofChars cs).name.toList := by
  have hrev : ∀ cs, (ofReversed cs).name = "" ∨ Solid (ofReversed cs).name.toList := by
    intro cs
    fun_induction ofReversed cs with
    | case1 rest ih =>
      have hbrackets : Solid ['[', ']'] := ⟨⟨'[', rfl, by decide⟩, ']', rfl, by decide⟩
      right
      rw [name, String.toList_append]
      rcases ih with hempty | hsolid
      · rw [hempty]
        exact hbrackets
      · simpa using hsolid.append hbrackets []
    | case2 d rest hne hblank ih => exact ih
    | case3 d rest hne hblank =>
      right
      rw [name_ofPlainName, String.toList_ofList]
      have hnonempty : (d :: rest).reverse.dropWhile Text.isBlank ≠ [] := fun hnil =>
        hblank (List.dropWhile_eq_nil_iff.mp hnil d (List.mem_reverse.mpr List.mem_cons_self))
      refine ⟨⟨_, List.head?_eq_some_head hnonempty, List.head_dropWhile_not _ hnonempty⟩, d, ?_,
        Bool.eq_false_iff.mpr hblank⟩
      -- blanks are dropped at the front only, so the last character stays
      obtain ⟨front, hfront⟩ := List.dropWhile_suffix Text.isBlank (l := (d :: rest).reverse)
      have hlast : (d :: rest).reverse.getLast? = some d := by rw [List.getLast?_reverse]; rfl
      rwa [← hfront, List.getLast?_append_of_ne_nil _ hnonempty] at hlast
    | case4 => exact Or.inl (name_ofPlainName "")
  exact (hrev cs.reverse).resolve_left (name_ofChars_ne_empty h)

end Ty

/-! ## Subsignatures -/

/-- The text of the subsignature is read as it: the name and the names of the types have no blank at
either end, the return type has no blank in it, and types are those that their names are read as. -/
structure Subsig.Canonical (s : Subsig) : Prop extends s.Plain where
  solid_ret : Solid s.ret.name.toList
  solid_name : Solid s.name.toList
  solid_params : ∀ p ∈ s.params, Solid p.name.toList
  space : ' ' ∉ s.ret.name.toList
  read_ret : Ty.ofName s.ret.name = s.ret

namespace Signature

/-- The parts of a subsignature stand in its text, and are not blank. -/
theorem of_parts? {cs ret name inner : List Char} (h : parts? cs = some (ret, name, inner)) :
    ' ' ∉ ret ∧ (∃ c ∈ ret, Text.isBlank c = false) ∧ Solid name := by
  unfold parts? at h
  obtain ⟨⟨front, rest⟩, -, h⟩ := Option.bind_eq_some_iff.mp h
  dsimp only at h
  split_ifs at h
  · exact nomatch h
  obtain ⟨⟨ret', name'⟩, hcut, h⟩ := Option.bind_eq_some_iff.mp h
  dsimp only at h
  split_ifs at h with hempty
  · exact nomatch h
  obtain ⟨rfl, hname⟩ := Prod.mk.inj (Option.some.inj h)
  obtain ⟨rfl, -⟩ := Prod.mk.inj hname
  rw [Bool.or_eq_true, not_or, List.isEmpty_iff, List.isEmpty_iff] at hempty
  refine ⟨Text.not_mem_of_cut hcut, ?_, Text.solid_trim hempty.2⟩
  -- the text was trimmed before it was cut, so it does not begin with a blank
  have hfront : Text.trim front = ret' ++ ' ' :: name' := by simpa using Text.eq_append_of_cut hcut
  have hsolid : Solid (Text.trim front) := Text.solid_trim (by simp [hfront])
  obtain ⟨c, hc, hblank⟩ := hsolid.head
  rw [hfront, List.head?_append_of_ne_nil _ hempty.1] at hc
  exact ⟨c, List.mem_of_mem_head? hc, hblank⟩

theorem canonical_of_readSubsig {cs : List Char} {s : Subsig} (h : (readSubsig cs).value = .ok s) :
    s.Canonical ∧ (readSubsig cs).mentions = s.params ++ [s.ret] := by
  have hplain := plain_of_readSubsig h
  unfold readSubsig at h ⊢
  dsimp only at h ⊢
  cases hparts : parts? (Text.trim cs) with
  | none =>
    rw [hparts] at h
    exact nomatch h
  | some parts =>
    obtain ⟨ret, name, inner⟩ := parts
    rw [hparts] at h
    dsimp only at h ⊢
    split_ifs at h ⊢ with hcomplete
    obtain rfl := Except.ok.inj h
    obtain ⟨hspace, hret, hname⟩ := of_parts? hparts
    refine ⟨⟨hplain, Ty.solid_name_ofChars hret, by rwa [String.toList_ofList],
      fun type htype => ?_,
      fun hmem => ?_, Ty.ofName_name_ofChars ret⟩, rfl⟩
    · unfold readParamList at htype
      dsimp only at htype
      split_ifs at htype
      · exact absurd htype List.not_mem_nil
      obtain ⟨p, hp, hne, rfl⟩ := mem_readParams htype
      exact Ty.solid_name_ofChars (Text.solid_trim hne).exists_not_blank
    · rcases Ty.mem_of_mem_name_ofChars hmem with hmem | hmem
      · exact hspace hmem
      · exact absurd hmem (by decide)

/-- Parameters are read from their names. -/
theorem readParams_names {params : List Ty}
    (h : ∀ p ∈ params, Solid p.name.toList ∧ Ty.ofName p.name = p) :
    readParams (params.map fun p => p.name.toList) = (params, true) := by
  induction params with
  | nil => rfl
  | cons p ps ih =>
    obtain ⟨hsolid, hread⟩ := h p List.mem_cons_self
    rw [List.map_cons, readParams, hsolid.trim_eq, ih fun q hq => h q (List.mem_cons_of_mem p hq)]
    dsimp only
    rw [if_neg (mt List.isEmpty_iff.mp hsolid.ne_nil)]
    exact congrArg (fun type => (type :: ps, true)) hread

end Signature

namespace Subsig.Canonical

open Signature

variable {s : Subsig}

theorem readParamList_names (h : s.Canonical) :
    readParamList ([','].intercalate (s.params.map fun p => p.name.toList)) = (s.params, true) := by
  have hnames := readParams_names fun p hp => ⟨h.solid_params p hp, (h.params p hp).2.2⟩
  have hcommas : ∀ q ∈ s.params.map fun p => p.name.toList, Solid q ∧ ',' ∉ q := by
    intro q hq
    obtain ⟨p, hp, rfl⟩ := List.mem_map.mp hq
    exact ⟨h.solid_params p hp, (h.params p hp).2.1⟩
  unfold readParamList
  cases hmap : s.params.map fun p => p.name.toList with
  | nil => rw [List.map_eq_nil_iff.mp hmap]; rfl
  | cons q qs =>
    rw [hmap] at hcommas hnames
    have hsolid : Solid ([','].intercalate (q :: qs)) :=
      Text.solid_intercalate fun r hr => (hcommas r hr).1
    dsimp only
    rw [hsolid.trim_eq, if_neg (mt List.isEmpty_iff.mp hsolid.ne_nil),
      Text.pieces_intercalate fun r hr => (hcommas r hr).2, hnames]

theorem parts?_text (h : s.Canonical) : parts? s.text.toList =
    some (s.ret.name.toList, s.name.toList,
      [','].intercalate (s.params.map fun p => p.name.toList)) := by
  have hparen : '(' ∉ s.ret.name.toList ++ ' ' :: s.name.toList := by simpa using ⟨h.ret, h.name⟩
  have hfront : Solid (s.ret.name.toList ++ ' ' :: s.name.toList) := by
    simpa using h.solid_ret.append h.solid_name [' ']
  rw [toList_text]
  unfold parts?
  rw [Text.cut_of_not_mem hparen]
  simp [hfront.trim_eq, Text.cut_of_not_mem h.space, h.solid_name.trim_eq, h.solid_ret.ne_nil,
    h.solid_name.ne_nil]

theorem solid_text (h : s.Canonical) : Solid s.text.toList := by
  have hclose : Solid [')'] := ⟨⟨')', rfl, by decide⟩, ')', rfl, by decide⟩
  have htext : s.text.toList = s.ret.name.toList ++
      (' ' :: s.name.toList ++ '(' :: [','].intercalate (s.params.map fun p => p.name.toList)) ++
      [')'] := by
    simp [toList_text]
  rw [htext]
  exact h.solid_ret.append hclose _

/-- The text of a canonical subsignature is read as it. -/
theorem readSubsig_text (h : s.Canonical) :
    readSubsig s.text.toList = ⟨s.params ++ [s.ret], .ok s⟩ := by
  unfold readSubsig
  dsimp only
  rw [h.solid_text.trim_eq, h.parts?_text]
  dsimp only
  rw [h.readParamList_names]
  have hret : Ty.ofChars s.ret.name.toList = s.ret := h.read_ret
  simp [hret]

end Subsig.Canonical

/-! ## Signatures -/

namespace Signature

/-- The text of the signature is read as it: so is the text of the subsignature, and the class has a
name without the separator that follows it. -/
structure Canonical (s : Signature) : Prop where
  sub : s.sub.Canonical
  cls_ne_empty : s.cls ≠ ""
  separator : ¬ [':', ' '] <:+: s.cls.toList

theorem canonical_of_readSignature {cs : List Char} {s : Signature}
    (h : (readSignature cs).value = .ok s) :
    s.Canonical ∧ (readSignature cs).mentions = s.sub.params ++ [s.sub.ret, .cls s.cls] := by
  unfold readSignature at h ⊢
  dsimp only at h ⊢
  cases hbracketed : bracketed? (Text.trim cs) with
  | none =>
    rw [hbracketed] at h
    exact nomatch h
  | some parts =>
    obtain ⟨cls, sub⟩ := parts
    rw [hbracketed] at h
    dsimp only at h ⊢
    unfold bracketed? at hbracketed
    split_ifs at hbracketed
    · exact nomatch hbracketed
    obtain ⟨⟨cls', sub'⟩, hcut, hbracketed⟩ := Option.bind_eq_some_iff.mp hbracketed
    dsimp only at hbracketed
    split_ifs at hbracketed with hempty
    · exact nomatch hbracketed
    obtain ⟨rfl, rfl⟩ := Prod.mk.inj (Option.some.inj hbracketed)
    cases hsub : (readSubsig sub').value with
    | error e =>
      rw [hsub] at h
      exact nomatch h
    | ok s' =>
      rw [hsub] at h
      obtain rfl := Except.ok.inj h
      obtain ⟨hcanonical, hmentions⟩ := canonical_of_readSubsig hsub
      refine ⟨⟨hcanonical, ?_, ?_⟩, ?_⟩
      · intro hcls
        exact hempty (List.isEmpty_iff.mpr (String.ofList_eq_empty_iff.mp hcls))
      · rw [String.toList_ofList]
        exact Text.not_infix_of_cut (by decide) hcut
      · simp [hmentions]

namespace Canonical

variable {s : Signature}

theorem toList_text (s : Signature) :
    s.text.toList = ['<'] ++ (s.cls.toList ++ [':', ' '] ++ s.sub.text.toList) ++ ['>'] := by
  simp [text, String.toList_append]

theorem bracketed?_text (h : s.Canonical) :
    bracketed? s.text.toList = some (s.cls.toList, s.sub.text.toList) := by
  have hhead : s.text.toList.head? = some '<' := by rw [toList_text]; rfl
  have hlast : s.text.toList.getLast? = some '>' := by rw [toList_text, List.getLast?_concat]
  have hinner : (s.text.toList.drop 1).dropLast = s.cls.toList ++ [':', ' '] ++
      s.sub.text.toList := by
    rw [toList_text, List.append_assoc, List.singleton_append, List.drop_one, List.tail_cons,
      List.dropLast_concat]
  have hcls : s.cls.toList ≠ [] := fun hnil => h.cls_ne_empty (String.toList_eq_nil_iff.mp hnil)
  unfold bracketed?
  rw [hinner, hhead, hlast, Text.cut_of_not_infix (by decide) h.separator]
  simp [hcls]

/-- The text of a canonical signature is read as it. -/
theorem readSignature_text (h : s.Canonical) :
    readSignature s.text.toList = ⟨s.sub.params ++ [s.sub.ret, .cls s.cls], .ok s⟩ := by
  have hsolid : Solid s.text.toList := by
    have hopen : Solid ['<'] := ⟨⟨'<', rfl, by decide⟩, '<', rfl, by decide⟩
    have hclose : Solid ['>'] := ⟨⟨'>', rfl, by decide⟩, '>', rfl, by decide⟩
    rw [toList_text]
    exact hopen.append hclose _
  unfold readSignature
  dsimp only
  rw [hsolid.trim_eq, h.bracketed?_text]
  dsimp only
  rw [h.sub.readSubsig_text]
  simp

end Canonical

end Signature

theorem MethodRef.ofSignature_injective {s s' : Signature} (h : ofSignature s = ofSignature s') :
    s = s' := by
  obtain ⟨cls, name, params, ret⟩ := s
  obtain ⟨cls', name', params', ret'⟩ := s'
  simp only [ofSignature, MethodRef.mk.injEq, Option.some.injEq, Ty.cls.injEq,
    (List.map_injective_iff.mpr (Option.some_injective Ty)).eq_iff] at h
  obtain ⟨rfl, rfl, rfl, rfl⟩ := h
  rfl

/-! ## Programs -/

namespace ClassTable

/-- Classes that were mentioned are not mentioned again. -/
theorem mentionAll_of_subset {t : ClassTable} {names : List String} (h : ∀ n ∈ names, n ∈ t.names) :
    t.mentionAll names = t := by
  unfold mentionAll
  induction names with
  | nil => rfl
  | cons n ns ih =>
    have hmem : t.entries.contains n = true :=
      Std.TreeMap.mem_iff_contains.mp (Std.TreeMap.mem_keys.mp (h n List.mem_cons_self))
    rw [List.foldl_cons, mention, if_pos hmem]
    exact ih fun m hm => h m (List.mem_cons_of_mem n hm)

theorem mentionTypes_mentionTypes (t : ClassTable) (types : List Ty) :
    (t.mentionTypes types).mentionTypes types = t.mentionTypes types :=
  mentionAll_of_subset fun _ hn => (mem_names_mentionAll _).mpr (Or.inl hn)

end ClassTable

/-- A method of a loaded program was declared with a canonical signature, the name of its class
apart. -/
theorem Description.canonical_of_build {d : Description} {p : Program} (h : d.build = .ok p) :
    p.table.Methods fun m => m.sub.Canonical ∧ m.cls ≠ "" := by
  refine build_methods (fun {m m'} hheader hm => ?_) (fun c _ hname md _ m hdecl => ?_) p h
  · have hsub : m'.header.sub = m.header.sub := by rw [hheader]
    have hcls : m'.header.cls = m.header.cls := by rw [hheader]
    exact ⟨(hsub : m'.sub = m.sub) ▸ hm.1, (hcls : m'.cls = m.cls) ▸ hm.2⟩
  · obtain ⟨sub, hread, hofDecl⟩ := hdecl
    obtain ⟨receiver, vars, formals, -, -, -, rfl⟩ := Method.ofDecl_eq hofDecl
    exact ⟨(Signature.canonical_of_readSubsig hread).1, hname⟩

/-- Looking up the text of a canonical signature finds the method of that class and subsignature. -/
theorem Program.lookup_text {p : Program} {s : Signature} {m : Method} (hs : s.Canonical)
    (hm : p.table.method? ⟨s.cls, s.sub.text⟩ = some m) :
    p.lookup s.text = (.ok ⟨s.cls, s.sub.text⟩,
      p.mentionTypes (s.sub.params ++ [s.sub.ret, .cls s.cls])) := by
  have hm' : (p.mentionTypes (s.sub.params ++ [s.sub.ret, .cls s.cls])).method?
      ⟨s.cls, s.sub.text⟩ = some m :=
    (ClassTable.method?_mentionTypes ..).trans hm
  unfold lookup
  dsimp only
  rw [hs.readSignature_text]
  dsimp only
  rw [hm']

/-- Reading what was written gives back what was written, so texts tell signatures apart, and the
text of a method's signature finds the method.

Reading again mentions the same types, so it adds nothing to a class table. The name of a class is
written as it stands and may contain the separator that follows it, in which case the text of a
signature is read as another one. -/
theorem signature_round_trip :
    (∀ (t : ClassTable) cs s, (Signature.readSignature cs).value = .ok s →
      (MethodRef.ofSignature s).text? = some s.text ∧
      Signature.readSignature s.text.toList = Signature.readSignature cs ∧
      (t.mentionTypes (Signature.readSignature cs).mentions).mentionTypes
      (Signature.readSignature cs).mentions =
        t.mentionTypes (Signature.readSignature cs).mentions) ∧
    (∀ (t : ClassTable) cs s, (Signature.readSubsig cs).value = .ok s →
      Signature.readSubsig s.text.toList = Signature.readSubsig cs ∧
      (t.mentionTypes (Signature.readSubsig cs).mentions).mentionTypes
      (Signature.readSubsig cs).mentions =
        t.mentionTypes (Signature.readSubsig cs).mentions) ∧
    (∀ cs cs' s s', (Signature.readSignature cs).value = .ok s →
      (Signature.readSignature cs').value = .ok s' →
      (MethodRef.ofSignature s = .ofSignature s' ↔ s.text = s'.text)) ∧
    (∀ cs cs' s s', (Signature.readSubsig cs).value = .ok s →
      (Signature.readSubsig cs').value = .ok s' →
      (s = s' ↔ s.text = s'.text)) ∧
    ∀ (d : Description) p, d.build = .ok p → ∀ m ∈ p.methods, ¬ [':', ' '] <:+: m.cls.toList →
      (p.lookup m.signature).1 = .ok m.id ∧ (p.lookup m.signature).2.method? m.id = some m := by
  refine ⟨?_, ?_, ?_, ?_, ?_⟩
  · intro t cs s h
    obtain ⟨hs, hmentions⟩ := Signature.canonical_of_readSignature h
    refine ⟨?_, ?_, t.mentionTypes_mentionTypes _⟩
    · unfold MethodRef.text?
      rw [MethodRef.subsig?_ofSignature]
      rfl
    · rw [hs.readSignature_text, ← hmentions, ← h]
  · intro t cs s h
    obtain ⟨hs, hmentions⟩ := Signature.canonical_of_readSubsig h
    refine ⟨?_, t.mentionTypes_mentionTypes _⟩
    rw [hs.readSubsig_text, ← hmentions, ← h]
  · intro cs cs' s s' h h'
    have hs := (Signature.canonical_of_readSignature h).1.readSignature_text
    have hs' := (Signature.canonical_of_readSignature h').1.readSignature_text
    refine ⟨fun heq => congrArg Signature.text (MethodRef.ofSignature_injective heq),
      fun htext => ?_⟩
    rw [htext, hs'] at hs
    rw [Except.ok.inj (Reading.mk.inj hs).2]
  · intro cs cs' s s' h h'
    have hs := (Signature.canonical_of_readSubsig h).1.readSubsig_text
    have hs' := (Signature.canonical_of_readSubsig h').1.readSubsig_text
    refine ⟨congrArg Subsig.text, fun htext => ?_⟩
    rw [htext, hs'] at hs
    exact (Except.ok.inj (Reading.mk.inj hs).2).symm
  · intro d p hp m hm hseparator
    obtain ⟨id, hid⟩ := ClassTable.exists_method?_of_mem (Text.mem_sortBy.mp hm)
    obtain rfl := (Description.steady_of_build hp).declared_table.id_eq hid
    obtain ⟨hsub, hcls⟩ := Description.canonical_of_build hp m.id m hid
    have hs : Signature.Canonical ⟨m.cls, m.sub⟩ := ⟨hsub, hcls, hseparator⟩
    have htext : m.signature = Signature.text ⟨m.cls, m.sub⟩ := by
      unfold Method.signature MethodId.signature Signature.text
      rfl
    rw [htext, Program.lookup_text hs hid]
    exact ⟨rfl, (ClassTable.method?_mentionTypes ..).trans hid⟩

/-- A signature with blanks in it, its text, and the method of `nodes` that it finds. -/
theorem signature_round_trip_nodes :
    (MethodRef.ofSignature ⟨"Leaf", "push", [.cls "Node"], .cls "Node"⟩).text? =
      some "<Leaf: Node push(Node)>" ∧
    Signature.readSignature "<Leaf: Node push(Node)>".toList =
      Signature.readSignature " <Leaf:  Node  push ( Node )> ".toList ∧
    Signature.readSubsig "Node[] all()".toList = Signature.readSubsig "Node\t[] all( )".toList ∧
    ∃ m ∈ Description.nodesProgram.methods, m.signature = "<Leaf: Node push(Node)>" ∧
      (Description.nodesProgram.lookup m.signature).1 = .ok m.id := by
  obtain ⟨hsignature, hsubsig, -, -, hmethod⟩ := signature_round_trip
  have hread : (Signature.readSignature " <Leaf:  Node  push ( Node )> ".toList).value =
      .ok ⟨"Leaf", "push", [.cls "Node"], .cls "Node"⟩ := by decide +kernel
  have hreadSub : (Signature.readSubsig "Node\t[] all( )".toList).value =
      .ok ⟨"all", [], .array (.cls "Node")⟩ := by decide +kernel
  obtain ⟨htext, hagain, -⟩ := hsignature .initial _ _ hread
  have hsome : (Description.nodesProgram.table.method? ⟨"Leaf", "Node push(Node)"⟩).isSome := by
    decide +kernel
  obtain ⟨m, hm⟩ := Option.isSome_iff_exists.mp hsome
  have hid : m.id = ⟨"Leaf", "Node push(Node)"⟩ :=
    (Description.steady_of_build Description.build_nodes).declared_table.id_eq hm
  have hcls : m.cls = "Leaf" := congrArg MethodId.cls hid
  have hmem : m ∈ Description.nodesProgram.methods :=
    Text.mem_sortBy.mpr (ClassTable.mem_methods_of_method? hm)
  refine ⟨htext, hagain, (hsubsig .initial _ _ hreadSub).1, m, hmem, ?_, ?_⟩
  · rw [Method.signature, hid]
    rfl
  · exact (hmethod _ _ Description.build_nodes m hmem (by rw [hcls]; decide)).1

end PointsTo
