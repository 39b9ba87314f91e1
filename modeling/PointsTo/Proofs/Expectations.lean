import PointsTo.Proofs.Golden

/-!
# Which texts are golden files, and what they expect

A text is read line by line. A line that starts with `<` is a heading, and a line that is neither a
heading nor blank says what a call runs. Such a line has to have an arrow, and a heading somewhere
before it (`Fits`). The text is a golden file if all its lines fit, and otherwise the first line
that does not is reported (`parse_iff_allFit`). What a golden file expects of a call is what the
last line about it says (`Expects`).

All notions are about a line and the lines before it, so that a text is followed by adding lines at
its end.
-/

namespace PointsTo

namespace Text

/-! ## Lines and arrows -/

/-- The lines of a text: what stands before each line feed, and what stands behind the last one
unless it is empty. -/
structure IsLines (ls : List (List Char)) (cs : List Char) : Prop where
  no_feed : ∀ l ∈ ls, '\n' ∉ l
  text : unlines ls = cs ∨ unlines ls = cs ++ ['\n'] ∧ ls.getLast? ≠ some []

theorem unlines_append (ls ls' : List (List Char)) :
    unlines (ls ++ ls') = unlines ls ++ unlines ls' := by
  rw [unlines, List.flatMap_append]
  rfl

/-- A text is made up of its pieces, but for a line feed behind the last one. -/
theorem unlines_pieces (cs : List Char) : unlines (pieces '\n' cs) = cs ++ ['\n'] := by
  induction cs with
  | nil => rfl
  | cons c cs ih =>
    unfold pieces
    split_ifs with hc
    · rw [hc, List.cons_append, ← ih]
      rfl
    · cases hps : pieces '\n' cs with
      | nil =>
        rw [hps] at ih
        exact absurd ih.symm (List.append_ne_nil_of_right_ne_nil _ (List.cons_ne_nil _ _))
      | cons p ps =>
        rw [hps] at ih
        rw [List.cons_append, ← ih]
        rfl

theorem isLines_rawLines (cs : List Char) : IsLines (rawLines cs) cs := by
  have hpieces := unlines_pieces cs
  unfold rawLines
  dsimp only
  split_ifs with hlast
  · refine ⟨fun l hl => not_mem_of_mem_pieces l (List.dropLast_subset _ hl), Or.inl ?_⟩
    rw [← List.dropLast_append_getLast? [] hlast, unlines_append] at hpieces
    exact List.append_cancel_right hpieces
  · exact ⟨not_mem_of_mem_pieces, Or.inr ⟨hpieces, hlast⟩⟩

/-- A text is cut at the first occurrence of a separator. -/
structure FirstCut (sep cs before after : List Char) : Prop where
  eq : cs = before ++ sep ++ after
  first : ∀ b a, cs = b ++ sep ++ a → before.length ≤ b.length

theorem cut_eq_some_iff {sep cs before after : List Char} (hsep : sep ≠ []) :
    cut sep cs = some (before, after) ↔ FirstCut sep cs before after := by
  constructor
  · intro h
    refine ⟨eq_append_of_cut h, fun b a hba => ?_⟩
    rw [hba] at h
    exact length_le_of_cut h
  · rintro ⟨rfl, hfirst⟩
    exact cut_append_append hsep hfirst

theorem cut_eq_none_iff {sep cs : List Char} : cut sep cs = none ↔ ¬ sep <:+: cs := by
  induction cs with
  | nil =>
    rw [cut, List.infix_nil]
    split_ifs with h <;> simpa using h
  | cons c cs ih =>
    rw [cut, List.infix_cons_iff, ← List.isPrefixOf_iff_prefix]
    split_ifs with h
    · simp [h]
    · simp [h, ih]

end Text

namespace Golden

/-! ## Lines in their places -/

/-- The lines of a text, without the carriage returns at their ends. -/
def textLines (text : String) : List (List Char) := (Text.rawLines text.toList).map Text.dropReturn

/-- A line that opens a section. -/
abbrev IsHeading (l : List Char) : Prop := l.head? = some '<'

/-- A line that says what a call runs. -/
abbrev IsCallLine (l : List Char) : Prop := ¬ IsHeading l ∧ Text.trim l ≠ []

/-- What stands between a call and its callees. -/
abbrev arrow : List Char := [' ', '-', '>', ' ']

theorem arrow_ne_nil : arrow ≠ [] := List.cons_ne_nil _ _

variable {ls before : List (List Char)} {l : List Char} {sig unit callees : String}

/-- A line may follow other lines. -/
def Fits (before : List (List Char)) (l : List Char) : Prop :=
  IsCallLine l → arrow <:+: l ∧ ∃ h ∈ before, IsHeading h

/-- Every line may follow those before it. -/
def AllFit (ls : List (List Char)) : Prop :=
  ∀ before l after, ls = before ++ l :: after → Fits before l

/-- A section is open after lines: the last heading among them is that of the section. -/
def Opens (ls : List (List Char)) (sig : String) : Prop :=
  ∃ earlier h later, ls = earlier ++ h :: later ∧ IsHeading h ∧ String.ofList (Text.trim h) = sig ∧
    ∀ l ∈ later, ¬ IsHeading l

/-- A line that follows others says what a call of a method runs. -/
structure Says (before : List (List Char)) (l : List Char) (sig unit callees : String) : Prop where
  call : IsCallLine l
  cut : Text.FirstCut arrow l unit.toList callees.toList
  opens : Opens before sig

/-- Lines expect of a call of a method what the last of them about it says. -/
def Expects (ls : List (List Char)) (sig unit callees : String) : Prop :=
  ∃ before l after, ls = before ++ l :: after ∧ Says before l sig unit callees ∧
    ∀ before' l' after' callees', ls = before' ++ l' :: after' → before.length < before'.length →
      ¬ Says before' l' sig unit callees'

/-! ## Adding a line -/

/-- A line among lines and one more is one of the former or that one. -/
theorem concat_eq_append_cons {α : Type} {as bs cs : List α} {a b : α}
    (h : as ++ [a] = bs ++ b :: cs) :
    as = bs ∧ a = b ∧ cs = [] ∨ ∃ cs', as = bs ++ b :: cs' ∧ cs = cs' ++ [a] := by
  rcases List.eq_nil_or_concat cs with rfl | ⟨cs', c, rfl⟩
  · obtain ⟨has, ha⟩ := List.append_inj' h rfl
    exact Or.inl ⟨has, List.head_eq_of_cons_eq ha, rfl⟩
  · rw [List.concat_eq_append, ← List.cons_append, ← List.append_assoc] at h
    obtain ⟨has, ha⟩ := List.append_inj' h rfl
    obtain rfl := List.head_eq_of_cons_eq ha
    exact Or.inr ⟨cs', has, List.concat_eq_append⟩

theorem allFit_nil : AllFit [] := by
  intro before l after h
  exact absurd h.symm (List.append_ne_nil_of_right_ne_nil _ (List.cons_ne_nil _ _))

theorem AllFit.concat (h : AllFit ls) (hl : Fits ls l) : AllFit (ls ++ [l]) := by
  intro before l' after heq
  rcases concat_eq_append_cons heq with ⟨rfl, rfl, -⟩ | ⟨after', rfl, -⟩
  · exact hl
  · exact h before l' after' rfl

theorem opens_concat : Opens (ls ++ [l]) sig ↔
    IsHeading l ∧ String.ofList (Text.trim l) = sig ∨ ¬ IsHeading l ∧ Opens ls sig := by
  constructor
  · rintro ⟨earlier, h, later, heq, hhead, hsig, hlater⟩
    rcases concat_eq_append_cons heq with ⟨-, rfl, -⟩ | ⟨later', rfl, rfl⟩
    · exact Or.inl ⟨hhead, hsig⟩
    · rw [List.forall_mem_append, List.forall_mem_singleton] at hlater
      exact Or.inr ⟨hlater.2, earlier, h, later', rfl, hhead, hsig, hlater.1⟩
  · rintro (⟨hhead, hsig⟩ | ⟨hl, earlier, h, later, rfl, hhead, hsig, hlater⟩)
    · exact ⟨ls, l, [], rfl, hhead, hsig, by simp⟩
    · refine ⟨earlier, h, later ++ [l], by simp, hhead, hsig, ?_⟩
      rw [List.forall_mem_append, List.forall_mem_singleton]
      exact ⟨hlater, hl⟩

theorem expects_concat : Expects (ls ++ [l]) sig unit callees ↔
    Says ls l sig unit callees ∨ (∀ callees', ¬ Says ls l sig unit callees') ∧
      Expects ls sig unit callees := by
  constructor
  · rintro ⟨before, x, after, heq, hsaid, hlast⟩
    rcases concat_eq_append_cons heq with ⟨rfl, rfl, -⟩ | ⟨after', rfl, rfl⟩
    · exact Or.inl hsaid
    · refine Or.inr ⟨fun callees' => hlast _ l [] callees' rfl (by simp), before, x, after',
        rfl, hsaid, ?_⟩
      intro before' l' after'' callees' heq' hlt
      exact hlast before' l' (after'' ++ [l]) callees'
        (by rw [heq', List.append_assoc, List.cons_append]) hlt
  · rintro (hsaid | ⟨hnone, before, x, after, rfl, hsaid, hlast⟩)
    · refine ⟨ls, l, [], rfl, hsaid, fun before' l' after' callees' heq hlt => ?_⟩
      rcases concat_eq_append_cons heq with ⟨rfl, -⟩ | ⟨after'', rfl, -⟩
      · exact absurd hlt (Nat.lt_irrefl _)
      · rw [List.length_append] at hlt
        omega
    · refine ⟨before, x, after ++ [l], by simp, hsaid, fun before' l' after' callees' heq hlt => ?_⟩
      rcases concat_eq_append_cons heq with ⟨rfl, rfl, -⟩ | ⟨after'', heq', -⟩
      · exact hnone callees'
      · exact hlast before' l' after'' callees' heq' hlt

/-! ## What is read -/

/-- The section that is open after one more line. -/
def nextSection (section? : Option String) (l : List Char) : Option String :=
  if IsHeading l then some (String.ofList (Text.trim l)) else section?

/-- The section that is open after lines. -/
def openSection (ls : List (List Char)) : Option String := ls.foldl nextSection none

/-- What a line says in a section. -/
def expectation? (section? : Option String) (l : List Char) : Option Expectation :=
  if IsCallLine l then do
    let (unit, callees) ← Text.cut arrow l
    return ⟨← section?, String.ofList unit, String.ofList callees⟩
  else none

/-- What lines say that follow other lines. -/
def entriesAfter : List (List Char) → List (List Char) → List Expectation
  | _, [] => []
  | before, l :: rest =>
    (expectation? (openSection before) l).toList ++ entriesAfter (before ++ [l]) rest

theorem openSection_concat (ls : List (List Char)) (l : List Char) :
    openSection (ls ++ [l]) = nextSection (openSection ls) l := List.foldl_concat ..

theorem openSection_eq_some_iff : openSection ls = some sig ↔ Opens ls sig := by
  induction ls using List.reverseRecOn with
  | nil => simp [openSection, Opens]
  | append_singleton ls l ih =>
    rw [openSection_concat, opens_concat, ← ih, nextSection]
    split_ifs with hl
    · rw [Option.some.injEq]
      exact ⟨fun h => Or.inl ⟨hl, h⟩, fun h => h.elim And.right fun h => absurd hl h.1⟩
    · exact ⟨fun h => Or.inr ⟨hl, h⟩, fun h => h.elim (fun h => absurd h.1 hl) And.right⟩

theorem openSection_eq_none_iff : openSection ls = none ↔ ¬ ∃ h ∈ ls, IsHeading h := by
  induction ls using List.reverseRecOn with
  | nil => simp [openSection]
  | append_singleton ls l ih =>
    rw [openSection_concat, nextSection]
    split_ifs with hl
    · simp [hl]
    · simp [hl, ih]

theorem expectation?_eq_some_iff :
    expectation? (openSection before) l = some ⟨sig, unit, callees⟩ ↔
      Says before l sig unit callees := by
  unfold expectation?
  split_ifs with hcall
  · constructor
    · intro h
      obtain ⟨⟨u, c⟩, hcut, h⟩ := Option.bind_eq_some_iff.mp h
      obtain ⟨m, hopen, h⟩ := Option.bind_eq_some_iff.mp h
      obtain ⟨rfl, rfl, rfl⟩ := Expectation.mk.inj (Option.some.inj h)
      refine ⟨hcall, ?_, openSection_eq_some_iff.mp hopen⟩
      rw [String.toList_ofList, String.toList_ofList]
      exact (Text.cut_eq_some_iff arrow_ne_nil).mp hcut
    · rintro ⟨-, hcut, hopens⟩
      rw [(Text.cut_eq_some_iff arrow_ne_nil).mpr hcut, openSection_eq_some_iff.mpr hopens]
      simp
  · exact ⟨False.elim, fun h => absurd h.call hcall⟩

theorem entriesAfter_concat (before ls : List (List Char)) (l : List Char) :
    entriesAfter before (ls ++ [l]) =
      entriesAfter before ls ++ (expectation? (openSection (before ++ ls)) l).toList := by
  induction ls generalizing before with
  | nil => simp [entriesAfter]
  | cons l' ls ih => simp [entriesAfter, ih]

theorem expected?_append (es es' : List Expectation) (sig unit : String) :
    expected? (es ++ es') sig unit = (expected? es' sig unit).or (expected? es sig unit) := by
  unfold expected?
  rw [List.reverse_append, List.find?_append, Option.map_or]

theorem expected?_toList_eq_some_iff :
    expected? (expectation? (openSection before) l).toList sig unit = some callees ↔
      Says before l sig unit callees := by
  rw [← expectation?_eq_some_iff]
  cases expectation? (openSection before) l with
  | none => simp [expected?]
  | some e =>
    obtain ⟨m, u, c⟩ := e
    simp [expected?, and_assoc]

theorem expected?_toList_eq_none_iff :
    expected? (expectation? (openSection before) l).toList sig unit = none ↔
      ∀ callees, ¬ Says before l sig unit callees := by
  simp only [Option.eq_none_iff_forall_ne_some, ne_eq, expected?_toList_eq_some_iff]

/-- What is read expects what the lines expect. -/
theorem expected?_entriesAfter_eq_some_iff :
    expected? (entriesAfter [] ls) sig unit = some callees ↔ Expects ls sig unit callees := by
  induction ls using List.reverseRecOn with
  | nil => simp [entriesAfter, expected?, Expects]
  | append_singleton ls l ih =>
    rw [entriesAfter_concat, expected?_append, Option.or_eq_some_iff, List.nil_append,
      expected?_toList_eq_some_iff,
      expected?_toList_eq_none_iff, ih, expects_concat]

theorem expected?_entriesAfter_eq_none_iff :
    expected? (entriesAfter [] ls) sig unit = none ↔
      ∀ before l after callees, ls = before ++ l :: after → ¬ Says before l sig unit callees := by
  induction ls using List.reverseRecOn with
  | nil => simp [entriesAfter, expected?]
  | append_singleton ls l ih =>
    rw [entriesAfter_concat, expected?_append, Option.or_eq_none_iff, List.nil_append,
      expected?_toList_eq_none_iff, ih]
    constructor
    · rintro ⟨hl, hls⟩ before l' after callees heq
      rcases concat_eq_append_cons heq with ⟨rfl, rfl, -⟩ | ⟨after', rfl, -⟩
      · exact hl callees
      · exact hls before l' after' callees rfl
    · intro h
      refine ⟨fun callees => h ls l [] callees rfl, fun before l' after callees heq => ?_⟩
      exact h before l' (after ++ [l]) callees (by rw [heq, List.append_assoc, List.cons_append])

/-! ## One line after the other -/

/-- What is reported of a line that does not fit. That it has no arrow comes first. -/
def ErrorAt (before : List (List Char)) (l : List Char) (e : Error) : Prop :=
  ¬ arrow <:+: l ∧ e = .missingArrow (before.length + 1) (String.ofList l) ∨
    arrow <:+: l ∧ e = .outsideSection (before.length + 1)

theorem parseLines_cons_of_fits {raw : List Char}
    (hshort : (String.ofList raw).utf8ByteSize ≤ maxLine)
    (hfits : Fits before (Text.dropReturn raw)) (n : Nat) (rest : List (List Char)) :
    parseLines n (openSection before) (raw :: rest) =
      (parseLines (n + 1) (openSection (before ++ [Text.dropReturn raw])) rest).map
        ((expectation? (openSection before) (Text.dropReturn raw)).toList ++ ·) := by
  generalize hl : Text.dropReturn raw = l at hfits ⊢
  rw [openSection_concat, nextSection, expectation?, parseLines, if_neg (Nat.not_lt.mpr hshort), hl]
  dsimp only
  -- headings and blank lines always fit and say nothing
  by_cases hhead : IsHeading l
  · rw [if_pos hhead, if_pos hhead, if_neg fun h => h.1 hhead]
    cases parseLines (n + 1) _ rest <;> rfl
  rw [if_neg hhead, if_neg hhead]
  by_cases hblank : Text.trim l = []
  · rw [if_pos (List.isEmpty_iff.mpr hblank), if_neg fun h => h.2 hblank]
    cases parseLines (n + 1) _ rest <;> rfl
  · obtain ⟨harrow, hheading⟩ := hfits ⟨hhead, hblank⟩
    obtain ⟨⟨unit, callees⟩, hcut⟩ :=
      Option.ne_none_iff_exists'.mp (mt Text.cut_eq_none_iff.mp (not_not.mpr harrow))
    obtain ⟨method, hopen⟩ :=
      Option.ne_none_iff_exists'.mp (mt openSection_eq_none_iff.mp (not_not.mpr hheading))
    rw [if_neg (mt List.isEmpty_iff.mp hblank), if_pos ⟨hhead, hblank⟩, hcut, hopen]
    dsimp only
    cases parseLines (n + 1) (some method) rest <;> rfl

theorem parseLines_cons_of_not_fits {raw : List Char}
    (hshort : (String.ofList raw).utf8ByteSize ≤ maxLine)
    (hfits : ¬ Fits before (Text.dropReturn raw)) (rest : List (List Char)) :
    ∃ e, ErrorAt before (Text.dropReturn raw) e ∧
      parseLines (before.length + 1) (openSection before) (raw :: rest) = .error e := by
  obtain ⟨⟨hhead, hblank⟩, hl⟩ := Classical.not_imp.mp hfits
  rw [parseLines, if_neg (Nat.not_lt.mpr hshort)]
  dsimp only
  rw [if_neg hhead, if_neg (mt List.isEmpty_iff.mp hblank)]
  by_cases harrow : arrow <:+: Text.dropReturn raw
  · obtain ⟨x, hcut⟩ :=
      Option.ne_none_iff_exists'.mp (mt Text.cut_eq_none_iff.mp (not_not.mpr harrow))
    rw [hcut, openSection_eq_none_iff.mpr fun hheading => hl ⟨harrow, hheading⟩]
    exact ⟨_, Or.inr ⟨harrow, rfl⟩, rfl⟩
  · rw [Text.cut_eq_none_iff.mpr harrow]
    exact ⟨_, Or.inl ⟨harrow, rfl⟩, rfl⟩

/-- Lines that fit are read to the end, and reading stops at the first line that does not fit. -/
theorem parseLines_cases {raws : List (List Char)}
    (hshort : ∀ l ∈ raws, (String.ofList l).utf8ByteSize ≤ maxLine)
    (hbefore : AllFit before) :
    AllFit (before ++ raws.map Text.dropReturn) ∧
      parseLines (before.length + 1) (openSection before) raws =
        .ok (entriesAfter before (raws.map Text.dropReturn)) ∨
      ∃ before' l after e, before ++ raws.map Text.dropReturn = before' ++ l :: after ∧
        AllFit before' ∧
        ¬ Fits before' l ∧ ErrorAt before' l e ∧
        parseLines (before.length + 1) (openSection before) raws = .error e := by
  induction raws generalizing before with
  | nil => exact Or.inl ⟨by rwa [List.map_nil, List.append_nil], rfl⟩
  | cons raw raws ih =>
    rw [List.forall_mem_cons] at hshort
    rw [List.map_cons]
    by_cases hfits : Fits before (Text.dropReturn raw)
    · have hrest := ih hshort.2 (hbefore.concat hfits)
      rw [List.append_assoc, List.singleton_append, List.length_append,
        List.length_singleton] at hrest
      rw [parseLines_cons_of_fits hshort.1 hfits]
      rcases hrest with ⟨hall, hok⟩ | ⟨before', l, after, e, heq, hall, hl, he, herror⟩
      · exact Or.inl ⟨hall, by rw [hok]; rfl⟩
      · exact Or.inr ⟨before', l, after, e, heq, hall, hl, he, by rw [herror]; rfl⟩
    · obtain ⟨e, he, herror⟩ := parseLines_cons_of_not_fits hshort.1 hfits raws
      exact Or.inr ⟨before, Text.dropReturn raw, raws.map Text.dropReturn, e, rfl, hbefore,
        hfits, he, herror⟩

/-! ## Whole texts -/

variable {text : String} {es : List Expectation}

theorem parse_cases (hshort : ∀ l ∈ Text.rawLines text.toList,
    (String.ofList l).utf8ByteSize ≤ maxLine) :
    AllFit (textLines text) ∧ parse text = .ok (entriesAfter [] (textLines text)) ∨
      ∃ before l after e, textLines text = before ++ l :: after ∧ AllFit before ∧ ¬ Fits before l ∧
        ErrorAt before l e ∧ parse text = .error e :=
  parseLines_cases hshort allFit_nil

/-- Texts with a line that is too long are not read. -/
theorem short_of_parseLines {n : Nat} {section? : Option String} {raws : List (List Char)}
    (h : parseLines n section? raws = .ok es) : ∀ l ∈ raws,
    (String.ofList l).utf8ByteSize ≤ maxLine := by
  induction raws generalizing n section? es with
  | nil => simp
  | cons raw raws ih =>
    rw [parseLines] at h
    by_cases hlong : maxLine < (String.ofList raw).utf8ByteSize
    · rw [if_pos hlong] at h
      cases h
    rw [if_neg hlong] at h
    refine List.forall_mem_cons.mpr ⟨Nat.not_lt.mp hlong, ?_⟩
    dsimp only at h
    split_ifs at h
    · exact ih h
    · exact ih h
    · split at h
      · cases h
      · split at h
        · cases h
        · next method =>
          cases hmore : parseLines (n + 1) (some method) raws with
          | ok more => exact ih hmore
          | error e =>
            rw [hmore] at h
            cases h

theorem eq_entriesAfter_of_parse (h : parse text = .ok es) :
    es = entriesAfter [] (textLines text) := by
  rcases parse_cases (short_of_parseLines h) with
    ⟨-, hok⟩ | ⟨before, l, after, e, -, -, -, -, herror⟩
  · exact Except.ok.inj (h.symm.trans hok)
  · cases h.symm.trans herror

/-- How a text is read as a golden file. -/
structure ReadsText (text : String) : Prop where
  /-- The text is taken apart into its lines. -/
  lines : Text.IsLines (Text.rawLines text.toList) text.toList
  /-- A text is a golden file if and only if every line that is neither a heading nor blank has an
  arrow and comes after a heading. -/
  isGolden_iff : (∃ es, parse text = .ok es) ↔ AllFit (textLines text)
  /-- Of any other text the first line that is not so is reported with its number, a missing arrow
  before a missing heading. -/
  reported : ∀ e, parse text = .error e → ∃ before l after,
    textLines text = before ++ l :: after ∧ AllFit before ∧ IsCallLine l ∧
    (¬ arrow <:+: l ∧ e = .missingArrow (before.length + 1) (String.ofList l) ∧
        e.message = "malformed expected result file: line " ++ toString (before.length + 1) ++
          ": missing \" -> \": " ++ Text.quote (String.ofList l) ∨
      arrow <:+: l ∧ (¬ ∃ h ∈ before, IsHeading h) ∧ e = .outsideSection (before.length + 1) ∧
        e.message = "malformed expected result file: line " ++ toString (before.length + 1) ++
          ": call unit outside of a method section")
  /-- A golden file expects of a call what the last line about it in the sections of its method
  says. -/
  expected_iff : ∀ es, parse text = .ok es → ∀ sig unit callees,
    expected? es sig unit = some callees ↔ Expects (textLines text) sig unit callees
  /-- It expects nothing of a call about which there is no line. -/
  unexpected_iff : ∀ es, parse text = .ok es → ∀ sig unit,
    expected? es sig unit = none ↔ ∀ before l after callees,
      textLines text = before ++ l :: after → ¬ Says before l sig unit callees

/-- A text whose lines are not too long is a golden file if all its lines fit, and otherwise the
first line that does not is reported. -/
theorem parse_iff_allFit (text : String)
    (hshort : ∀ l ∈ Text.rawLines text.toList, (String.ofList l).utf8ByteSize ≤ maxLine) :
    ReadsText text where
  lines := Text.isLines_rawLines text.toList
  isGolden_iff := by
    rcases parse_cases hshort with ⟨hall, hok⟩ | ⟨before, l, after, e, heq, -, hl, -, herror⟩
    · exact ⟨fun _ => hall, fun _ => ⟨_, hok⟩⟩
    · constructor
      · rintro ⟨es, hok⟩
        cases hok.symm.trans herror
      · intro hall
        exact absurd (hall before l after heq) hl
  reported e he := by
    rcases parse_cases hshort with ⟨-, hok⟩ | ⟨before, l, after, e', heq, hall, hl, he', herror⟩
    · cases he.symm.trans hok
    · obtain rfl := Except.error.inj (he.symm.trans herror)
      obtain ⟨hcall, hnot⟩ := Classical.not_imp.mp hl
      refine ⟨before, l, after, heq, hall, hcall, ?_⟩
      rcases he' with ⟨harrow, rfl⟩ | ⟨harrow, rfl⟩
      · exact Or.inl ⟨harrow, rfl, rfl⟩
      · exact Or.inr ⟨harrow, fun hheading => hnot ⟨harrow, hheading⟩, rfl, rfl⟩
  expected_iff es hes sig unit callees := by
    obtain rfl := eq_entriesAfter_of_parse hes
    exact expected?_entriesAfter_eq_some_iff
  unexpected_iff es hes sig unit := by
    obtain rfl := eq_entriesAfter_of_parse hes
    exact expected?_entriesAfter_eq_none_iff

/-- A section that is opened twice, with a carriage return and a blank behind its heading the first
time. -/
def reopened : String :=
  "<A: void f()> \r\nx.g() -> [a]\n\n<B: void h()>\nx.g() -> [b]\n" ++
    "<A: void f()>\n\tx.g() -> []\nx.g() -> [c] -> [d]"

theorem parse_iff_allFit_reopened :
    (∀ l ∈ Text.rawLines reopened.toList, (String.ofList l).utf8ByteSize ≤ maxLine) ∧
    AllFit (textLines reopened) ∧ Expects (textLines reopened) "<A: void f()>" "x.g()"
      "[c] -> [d]" := by
  have hshort : ∀ l ∈ Text.rawLines reopened.toList, (String.ofList l).utf8ByteSize ≤ maxLine := by
    decide +kernel
  have hreads := parse_iff_allFit reopened hshort
  have hparse : parse reopened = .ok [⟨"<A: void f()>", "x.g()", "[a]"⟩,
      ⟨"<B: void h()>", "x.g()", "[b]"⟩,
      ⟨"<A: void f()>", "\tx.g()", "[]"⟩, ⟨"<A: void f()>", "x.g()", "[c] -> [d]"⟩] := by
        decide +kernel
  exact ⟨hshort, hreads.isGolden_iff.mp ⟨_, hparse⟩,
    (hreads.expected_iff _ hparse _ _ _).mp (by decide +kernel)⟩

end Golden

end PointsTo
