import PointsTo.Proofs.Text
import PointsTo.Signature

/-!
# The text of a subsignature tells what the parameters are

The names of types are not restricted, so different types may have the same name, and different
subsignatures the same text. A type that was read from a text is the one that its name is read as
(`Ty.ofName_name_ofChars`). Subsignatures that were read from a text are `Plain`: there is no
parenthesis before the parameters, and the parameter types have names that are not empty, have no
comma in them and are read as the types (`plain_of_readSubsig`). The texts of plain subsignatures
agree only if they have the same parameters (`Plain.params_eq`).
-/

namespace PointsTo

/-! ## Names of types that were read -/

namespace Ty

theorem name_ofPlainName (s : String) : (ofPlainName s).name = s := by
  unfold ofPlainName
  split_ifs with hnull
  · exact hnull.symm
  · split
    · next p hp =>
      have hname := List.find?_some hp
      exact of_decide_eq_true hname
    · rfl

/-- A type that was read has no characters in its name but brackets and those of the text. -/
theorem mem_of_mem_name_ofChars {c : Char} {cs : List Char} (h : c ∈ (ofChars cs).name.toList) :
    c ∈ cs ∨ c = '[' ∨ c = ']' := by
  have hrev : ∀ cs, c ∈ (ofReversed cs).name.toList → c ∈ cs ∨ c = '[' ∨ c = ']' := by
    intro cs
    fun_induction ofReversed cs with
    | case1 rest ih =>
      intro h
      rw [name, String.toList_append, List.mem_append] at h
      rcases h with h | h
      · rcases ih h with h | h
        · exact Or.inl (List.mem_cons_of_mem _ (List.mem_cons_of_mem _ h))
        · exact Or.inr h
      · exact Or.inr (by simpa using h)
    | case2 d rest hne hblank ih =>
      intro h
      rcases ih h with h | h
      · exact Or.inl (List.mem_cons_of_mem _ h)
      · exact Or.inr h
    | case3 d rest hne hblank =>
      intro h
      rw [name_ofPlainName, String.toList_ofList] at h
      exact Or.inl (List.mem_reverse.mp (Text.mem_of_mem_trimLeft h))
    | case4 =>
      intro h
      rw [name_ofPlainName] at h
      simp at h
  simpa using hrev cs.reverse h

/-- A type that was read from a text that is not blank has a name. -/
theorem name_ofChars_ne_empty {cs : List Char} (h : ∃ c ∈ cs, Text.isBlank c = false) :
    (ofChars cs).name ≠ "" := by
  have hrev : ∀ cs, (∃ c ∈ cs, Text.isBlank c = false) → (ofReversed cs).name.toList ≠ [] := by
    intro cs
    fun_induction ofReversed cs with
    | case1 rest ih =>
      intro _ hempty
      rw [name, String.toList_append, List.append_eq_nil_iff] at hempty
      exact absurd hempty.2 (by simp)
    | case2 d rest hne hblank ih =>
      rintro ⟨c, hc, hcb⟩
      rcases List.mem_cons.mp hc with rfl | hc
      · rw [hblank] at hcb
        exact nomatch hcb
      · exact ih ⟨c, hc, hcb⟩
    | case3 d rest hne hblank =>
      intro _ hempty
      rw [name_ofPlainName, String.toList_ofList] at hempty
      have hd : d ∈ (d :: rest).reverse := List.mem_reverse.mpr List.mem_cons_self
      exact hblank (List.dropWhile_eq_nil_iff.mp hempty d hd)
    | case4 =>
      rintro ⟨c, hc, -⟩
      exact absurd hc List.not_mem_nil
  obtain ⟨c, hc, hblank⟩ := h
  intro hempty
  exact hrev cs.reverse ⟨c, List.mem_reverse.mpr hc, hblank⟩ (String.toList_eq_nil_iff.mpr hempty)

/-- The name of a type that was read is read as the type. -/
theorem ofName_name_ofChars (cs : List Char) : ofName (ofChars cs).name = ofChars cs := by
  have hrev : ∀ cs, ofReversed (ofReversed cs).name.toList.reverse = ofReversed cs := by
    intro cs
    fun_induction ofReversed cs with
    | case1 rest ih =>
      have hreverse : (array (ofReversed rest)).name.toList.reverse =
          ']' :: '[' :: (ofReversed rest).name.toList.reverse := by
        rw [name, String.toList_append, List.reverse_append]
        rfl
      rw [hreverse]
      exact congrArg array ih
    | case2 d rest hne hblank ih => exact ih
    | case3 d rest hne hblank =>
      rw [name_ofPlainName, String.toList_ofList]
      -- the blanks that are dropped stand at the other end, so the last character stays
      have hprefix : (Text.trimLeft (d :: rest).reverse).reverse <+: d :: rest := by
        rw [← List.reverse_suffix, List.reverse_reverse]
        exact List.dropWhile_suffix _
      have hnonempty : (Text.trimLeft (d :: rest).reverse).reverse ≠ [] := by
        rw [Ne, List.reverse_eq_nil_iff]
        intro hnil
        exact hblank (List.dropWhile_eq_nil_iff.mp hnil d (List.mem_reverse.mpr List.mem_cons_self))
      generalize hkept : (Text.trimLeft (d :: rest).reverse).reverse = kept at hprefix hnonempty ⊢
      cases kept with
      | nil => exact absurd rfl hnonempty
      | cons d' rest' =>
        obtain ⟨rfl, hrest⟩ := List.cons_prefix_cons.mp hprefix
        have htrim : Text.trimLeft (d' :: rest').reverse = Text.trimLeft (d' :: rest).reverse := by
          rw [← hkept, List.reverse_reverse]
          exact List.dropWhile_idempotent ..
        rw [ofReversed.eq_def]
        split
        · next heq =>
          obtain ⟨rfl, rfl⟩ := List.cons.inj heq
          obtain ⟨tail, rfl⟩ := hrest
          exact (hne _ rfl rfl).elim
        · next heq =>
          obtain ⟨rfl, rfl⟩ := List.cons.inj heq
          rw [if_neg hblank, htrim]
        · next heq => exact nomatch heq
    | case4 =>
      rw [name_ofPlainName]
      rfl
  exact hrev cs.reverse

end Ty

/-! ## Plain subsignatures -/

/-- The text of the subsignature can be taken apart: no parenthesis stands before the parameters, no
comma within one, and parameters have the types that their names are read as. -/
structure Subsig.Plain (s : Subsig) : Prop where
  ret : '(' ∉ s.ret.name.toList
  name : '(' ∉ s.name.toList
  params : ∀ p ∈ s.params, p.name ≠ "" ∧ ',' ∉ p.name.toList ∧ Ty.ofName p.name = p

namespace Signature

theorem mem_readParams {ps : List (List Char)} {type : Ty} (h : type ∈ (readParams ps).1) :
    ∃ p ∈ ps, Text.trim p ≠ [] ∧ type = Ty.ofChars (Text.trim p) := by
  induction ps with
  | nil => exact absurd h List.not_mem_nil
  | cons p ps ih =>
    unfold readParams at h
    dsimp only at h
    split_ifs at h with hempty
    · exact absurd h List.not_mem_nil
    · rcases List.mem_cons.mp h with rfl | h
      · exact ⟨p, List.mem_cons_self, mt List.isEmpty_iff.mpr hempty, rfl⟩
      · obtain ⟨q, hq, hne, heq⟩ := ih h
        exact ⟨q, List.mem_cons_of_mem p hq, hne, heq⟩

theorem not_mem_of_parts? {cs ret name inner : List Char}
    (h : parts? cs = some (ret, name, inner)) :
    '(' ∉ ret ∧ '(' ∉ name := by
  unfold parts? at h
  obtain ⟨⟨front, rest⟩, hfront, h⟩ := Option.bind_eq_some_iff.mp h
  dsimp only at h
  split_ifs at h
  · exact nomatch h
  obtain ⟨⟨ret', name'⟩, hret, h⟩ := Option.bind_eq_some_iff.mp h
  dsimp only at h
  split_ifs at h
  · exact nomatch h
  obtain ⟨rfl, hname⟩ := Prod.mk.inj (Option.some.inj h)
  obtain ⟨rfl, -⟩ := Prod.mk.inj hname
  have hnot := Text.not_mem_of_cut hfront
  obtain ⟨hbefore, hafter⟩ := Text.subset_of_cut hret
  exact ⟨fun hmem => hnot (Text.mem_of_mem_trim (hbefore _ hmem)),
    fun hmem => hnot (Text.mem_of_mem_trim (hafter _ (Text.mem_of_mem_trim hmem)))⟩

/-- What was read from a text is plain. -/
theorem plain_of_readSubsig {cs : List Char} {s : Subsig} (h : (readSubsig cs).value = .ok s) :
    s.Plain := by
  unfold readSubsig at h
  dsimp only at h
  cases hparts : parts? (Text.trim cs) with
  | none =>
    rw [hparts] at h
    exact nomatch h
  | some parts =>
    obtain ⟨ret, name, inner⟩ := parts
    rw [hparts] at h
    dsimp only at h
    split_ifs at h
    obtain rfl := Except.ok.inj h
    obtain ⟨hret, hname⟩ := not_mem_of_parts? hparts
    refine ⟨fun hmem => ?_, by rwa [String.toList_ofList], fun type htype => ?_⟩
    · rcases Ty.mem_of_mem_name_ofChars hmem with hmem | hmem
      · exact hret hmem
      · exact absurd hmem (by decide)
    · unfold readParamList at htype
      dsimp only at htype
      split_ifs at htype
      · exact absurd htype List.not_mem_nil
      obtain ⟨p, hp, hne, rfl⟩ := mem_readParams htype
      refine ⟨Ty.name_ofChars_ne_empty (Text.solid_trim hne).exists_not_blank, fun hmem => ?_,
        Ty.ofName_name_ofChars _⟩
      rcases Ty.mem_of_mem_name_ofChars hmem with hmem | hmem
      · exact Text.not_mem_of_mem_pieces p hp (Text.mem_of_mem_trim hmem)
      · exact absurd hmem (by decide)

theorem plain_of_readSignature {cs : List Char} {s : Signature}
    (h : (readSignature cs).value = .ok s) :
    s.sub.Plain := by
  unfold readSignature at h
  dsimp only at h
  split at h
  · exact nomatch h
  · split at h
    · exact nomatch h
    · next hsub =>
      obtain rfl := Except.ok.inj h
      exact plain_of_readSubsig hsub

end Signature

/-! ## Taking texts apart -/

/-- What follows the first occurrence of a character. -/
theorem eq_of_append_cons_eq {a : Char} {front front' rest rest' : List Char} (hfront : a ∉ front)
    (hfront' : a ∉ front') (h : front ++ a :: rest = front' ++ a :: rest') : rest = rest' := by
  have hdrop : ∀ {front rest : List Char}, a ∉ front →
      (front ++ a :: rest).dropWhile (fun c => decide (c ≠ a)) = a :: rest := by
    intro front rest hfront
    have hpass : ∀ c ∈ front, decide (c ≠ a) = true := fun c hc =>
      decide_eq_true (ne_of_mem_of_not_mem hc hfront)
    rw [List.dropWhile_append_of_pos hpass]
    simp
  have heq := congrArg (List.dropWhile fun c => decide (c ≠ a)) h
  rw [hdrop hfront, hdrop hfront'] at heq
  exact (List.cons.inj heq).2

/-- Lists of texts without commas that are not empty are the same if they are the same when joined
by commas. -/
theorem eq_of_intercalate_eq {ps qs : List (List Char)} (hp : ∀ p ∈ ps, p ≠ [] ∧ ',' ∉ p)
    (hq : ∀ q ∈ qs, q ≠ [] ∧ ',' ∉ q) (h : [','].intercalate ps = [','].intercalate qs) :
      ps = qs := by
  have hempty : ∀ {p : List Char} {ps : List (List Char)}, p ≠ [] →
      [','].intercalate (p :: ps) ≠ [] := by
    intro p ps hne
    cases ps with
    | nil => simpa using hne
    | cons q qs => simp
  cases ps with
  | nil =>
    cases qs with
    | nil => rfl
    | cons q qs => exact absurd h.symm (hempty (hq q List.mem_cons_self).1)
  | cons p ps =>
    cases qs with
    | nil => exact absurd h (hempty (hp p List.mem_cons_self).1)
    | cons q qs =>
      have hpieces := congrArg (Text.pieces ',') h
      rwa [Text.pieces_intercalate fun r hr => (hp r hr).2,
        Text.pieces_intercalate fun r hr => (hq r hr).2] at hpieces

namespace Subsig

theorem toList_text (s : Subsig) : s.text.toList =
    (s.ret.name.toList ++ ' ' :: s.name.toList) ++ '(' ::
      ([','].intercalate (s.params.map fun p => p.name.toList) ++ [')']) := by
  unfold text
  simp [String.toList_append, String.toList_intercalate]
  rfl

/-- Plain subsignatures with the same text have the same parameters. -/
theorem Plain.params_eq {s s' : Subsig} (hs : s.Plain) (hs' : s'.Plain) (h : s.text = s'.text) :
    s.params = s'.params := by
  have hfront : ∀ {s : Subsig}, s.Plain → '(' ∉ s.ret.name.toList ++ ' ' :: s.name.toList := by
    intro s hs
    simpa using ⟨hs.ret, hs.name⟩
  have hparams : ∀ {s : Subsig}, s.Plain → ∀ p ∈ s.params.map fun p => p.name.toList, p ≠ [] ∧
      ',' ∉ p := by
    intro s hs p hp
    obtain ⟨type, htype, rfl⟩ := List.mem_map.mp hp
    obtain ⟨hne, hcomma, -⟩ := hs.params type htype
    exact ⟨fun hnil => hne (String.toList_eq_nil_iff.mp hnil), hcomma⟩
  have hread : ∀ {s : Subsig}, s.Plain →
      (s.params.map fun p => p.name.toList).map Ty.ofChars = s.params := by
    intro s hs
    rw [List.map_map]
    exact (List.map_congr_left fun p hp => (hs.params p hp).2.2).trans (List.map_id s.params)
  have hlist : s.text.toList = s'.text.toList := congrArg String.toList h
  rw [toList_text, toList_text] at hlist
  have hrest := eq_of_append_cons_eq (hfront hs) (hfront hs') hlist
  have hnames := eq_of_intercalate_eq (hparams hs) (hparams hs') (List.append_cancel_right hrest)
  rw [← hread hs, hnames, hread hs']

end Subsig

end PointsTo
