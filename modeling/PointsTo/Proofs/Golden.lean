import Mathlib.Data.List.Nodup
import PointsTo.Proofs.Comparing
import PointsTo.Proofs.Signature
import PointsTo.Proofs.Validation

/-!
# What a golden file says is what was written into it

The golden file of a call graph can be read back if signatures tell methods apart and every line can
be told from its neighbours (`Writable`). Its sections are then those of the methods with resolved
calls, and the lines of a section say what the calls of the method run (`Writable.parse_dump`). A
comparison with the same call graph finds a difference only at a call whose text is also that of
another call of the method (`compare_dump`).
-/

namespace PointsTo

/-! ## Lines of a text -/

namespace Text

/-- Lines, each of which is ended by a line feed. -/
def unlines (ls : List (List Char)) : List Char := ls.flatMap fun l => l ++ ['\n']

theorem pieces_unlines {ls : List (List Char)} (h : ∀ l ∈ ls, '\n' ∉ l) :
    pieces '\n' (unlines ls) = ls ++ [[]] := by
  induction ls with
  | nil => rfl
  | cons l ls ih =>
    have hl := h l List.mem_cons_self
    have hls := ih fun l' hl' => h l' (List.mem_cons_of_mem l hl')
    rw [unlines, List.flatMap_cons, List.append_assoc, List.singleton_append, pieces_append_cons hl]
    exact congrArg (l :: ·) hls

/-- Lines without line feeds are read as they were written. -/
theorem rawLines_unlines {ls : List (List Char)} (h : ∀ l ∈ ls, '\n' ∉ l) :
    rawLines (unlines ls) = ls := by
  unfold rawLines
  rw [pieces_unlines h]
  simp

/-- Texts of lines with a blank line between them are the lines with blank lines between them. -/
theorem intercalate_unlines (sections : List (List (List Char))) :
    ['\n'].intercalate (sections.map unlines) = unlines ([[]].intercalate sections) := by
  match sections with
  | [] => rfl
  | [s] => simp
  | s :: s' :: rest =>
    have ih := intercalate_unlines (s' :: rest)
    rw [List.map_cons] at ih
    rw [List.map_cons, List.map_cons, List.intercalate_cons_cons, ih, List.intercalate_cons_cons]
    simp [unlines]

theorem mem_intercalate {sep x : List Char} {sections : List (List (List Char))}
    (h : x ∈ [sep].intercalate sections) : x = sep ∨ ∃ s ∈ sections, x ∈ s := by
  match sections with
  | [] => exact absurd h List.not_mem_nil
  | [s] => exact Or.inr ⟨s, List.mem_singleton_self s, by simpa using h⟩
  | s :: s' :: rest =>
    rw [List.intercalate_cons_cons, List.append_assoc, List.mem_append, List.mem_append,
      List.mem_singleton] at h
    rcases h with h | h | h
    · exact Or.inr ⟨s, List.mem_cons_self, h⟩
    · exact Or.inl h
    · rcases mem_intercalate h with h | ⟨s'', hs, hx⟩
      · exact Or.inl h
      · exact Or.inr ⟨s'', List.mem_cons_of_mem s hs, hx⟩

theorem mem_intercalate_of_mem {sep x : List Char} {s : List (List Char)}
    {sections : List (List (List Char))}
    (hs : s ∈ sections) (hx : x ∈ s) : x ∈ [sep].intercalate sections := by
  match sections with
  | [s'] =>
    obtain rfl := List.mem_singleton.mp hs
    simpa using hx
  | s' :: s'' :: rest =>
    rw [List.intercalate_cons_cons, List.append_assoc, List.mem_append, List.mem_append]
    rcases List.mem_cons.mp hs with rfl | hs
    · exact Or.inl hx
    · exact Or.inr (Or.inr (mem_intercalate_of_mem hs hx))

end Text

namespace Golden

/-! ## Reading lines -/

/-- A line that says what is expected of a call. -/
structure IsEntry (line : List Char) (unit callees : String) : Prop where
  cut : Text.cut [' ', '-', '>', ' '] line = some (unit.toList, callees.toList)
  head : line.head? ≠ some '<'
  last : line.getLast? = some ']'
  short : (String.ofList line).utf8ByteSize ≤ maxLine

theorem IsEntry.unique {line : List Char} {unit callees unit' callees' : String}
    (h : IsEntry line unit callees) (h' : IsEntry line unit' callees') : unit = unit' ∧
      callees = callees' := by
  obtain ⟨hunit, hcallees⟩ := Prod.mk.inj (Option.some.inj (h.cut.symm.trans h'.cut))
  exact ⟨String.toList_inj.mp hunit, String.toList_inj.mp hcallees⟩

theorem dropReturn_of_getLast? {line : List Char} {c : Char} (h : line.getLast? = some c)
    (hc : c ≠ '\r') :
    Text.dropReturn line = line := by
  unfold Text.dropReturn
  rw [h, if_neg fun he => hc (Option.some.inj he)]

/-- The lines are read as given expectations, whatever the number of the first one is. -/
def Reads (section? : Option String) (lines : List (List Char)) (es : List Expectation) : Prop :=
  ∀ n, parseLines n section? lines = .ok es

theorem Reads.blank {section? : Option String} {rest : List (List Char)} {es : List Expectation}
    (h : Reads section? rest es) : Reads section? ([] :: rest) es := fun n => h (n + 1)

theorem Reads.heading {id : MethodId} {section? : Option String} {rest : List (List Char)}
    {es : List Expectation}
    (h : Reads (some id.signature) rest es) (hshort : id.signature.utf8ByteSize ≤ maxLine) :
    Reads section? (id.signature.toList :: rest) es := by
  have hsig : id.signature.toList = '<' :: ((id.cls ++ ": " ++ id.subsig).toList ++ ['>']) := by
    simp [MethodId.signature]
  have hlast : id.signature.toList.getLast? = some '>' := by
    rw [hsig, ← List.cons_append, List.getLast?_concat]
  have htrim : Text.trim id.signature.toList = id.signature.toList :=
    Text.Solid.trim_eq ⟨⟨'<', by rw [hsig]; rfl, by decide⟩, '>', hlast, by decide⟩
  intro n
  rw [parseLines, String.ofList_toList, if_neg (Nat.not_lt.mpr hshort)]
  dsimp only
  rw [dropReturn_of_getLast? hlast (by decide), htrim, String.ofList_toList,
    if_pos (by rw [hsig]; rfl)]
  exact h (n + 1)

theorem Reads.entry {line : List Char} {method unit callees : String} {rest : List (List Char)}
    {es : List Expectation} (h : Reads (some method) rest es) (hline : IsEntry line unit callees) :
    Reads (some method) (line :: rest) (⟨method, unit, callees⟩ :: es) := by
  have hblank : ¬ (Text.trim line).isEmpty := by
    rw [List.isEmpty_iff]
    exact Text.trim_ne_nil (List.mem_of_getLast? hline.last) (by decide)
  intro n
  rw [parseLines, if_neg (Nat.not_lt.mpr hline.short)]
  dsimp only
  rw [dropReturn_of_getLast? hline.last (by decide), if_neg hline.head, if_neg hblank, hline.cut]
  dsimp only
  rw [String.ofList_toList, String.ofList_toList, h (n + 1)]
  rfl

/-- The entries of a section are read as they stand there. -/
theorem Reads.entries {method : String} {lines rest : List (List Char)} {es : List Expectation}
    (h : Reads (some method) rest es) (hlines : ∀ l ∈ lines,
      ∃ unit callees, IsEntry l unit callees) :
    ∃ new, Reads (some method) (lines ++ rest) (new ++ es) ∧
      ∀ e, e ∈ new ↔ e.method = method ∧ ∃ l ∈ lines, IsEntry l e.unit e.callees := by
  induction lines with
  | nil => exact ⟨[], h, by simp⟩
  | cons l lines ih =>
    obtain ⟨unit, callees, hl⟩ := hlines l List.mem_cons_self
    obtain ⟨new, hnew, hmem⟩ := ih fun l' hl' => hlines l' (List.mem_cons_of_mem l hl')
    refine ⟨⟨method, unit, callees⟩ :: new, hnew.entry hl, fun e => ?_⟩
    rw [List.mem_cons, hmem e]
    constructor
    · rintro (rfl | ⟨hm, l', hl', he⟩)
      · exact ⟨rfl, l, List.mem_cons_self, hl⟩
      · exact ⟨hm, l', List.mem_cons_of_mem l hl', he⟩
    · rintro ⟨hm, l', hl', he⟩
      rcases List.mem_cons.mp hl' with rfl | hl'
      · obtain ⟨hunit, hcallees⟩ := he.unique hl
        exact Or.inl (by rw [← hm, ← hunit, ← hcallees])
      · exact Or.inr ⟨hm, l', hl', he⟩

/-! ## The lines that are written -/

variable {p : Program} {callees : Stmt → List MethodId} {m : Method} {s : Stmt}

/-- What a call graph says, of which every callee is there. -/
def viewOf (callees : Stmt → List MethodId) : CalleeView := fun s => (callees s).map some

/-- How callees are written. -/
def calleesText (ms : List MethodId) : String :=
  "[" ++ ", ".intercalate (Text.sortTexts (ms.map MethodId.signature)) ++ "]"

/-- How a call is written. -/
def unitText (s : Stmt) : String := s.text?.getD (Fault.absent.placeholder "s")

/-- The line of a call. -/
def lineOf (callees : Stmt → List MethodId) (s : Stmt) : String :=
  unitText s ++ " -> " ++ calleesText (callees s)

/-- The lines of a section. -/
def linesOf (callees : Stmt → List MethodId) (m : Method) : List String :=
  Text.sortTexts ((m.calls.filter fun s => !(callees s).isEmpty).map (lineOf callees))

/-- The section of a method, if it has lines. -/
def sectionOf? (callees : Stmt → List MethodId) (m : Method) : Option (List (List Char)) :=
  if linesOf callees m = [] then none
  else some (m.signature.toList :: (linesOf callees m).map String.toList)

/-- The lines of the sections of methods, with blank lines between the sections. -/
def goldenLines (callees : Stmt → List MethodId) (ms : List Method) : List (List Char) :=
  [[]].intercalate (ms.filterMap (sectionOf? callees))

theorem formatCallees_viewOf (callees : Stmt → List MethodId) (s : Stmt) :
    formatCallees (viewOf callees s) = .ok (calleesText (callees s)) := by
  unfold formatCallees signatures viewOf
  rw [allSome_map_some]
  rfl

theorem mem_linesOf {line : String} :
    line ∈ linesOf callees m ↔ ∃ s ∈ m.calls, callees s ≠ [] ∧ lineOf callees s = line := by
  unfold linesOf Text.sortTexts
  rw [Text.mem_sortBy, List.mem_map]
  simp only [List.mem_filter, Bool.not_eq_true', List.isEmpty_eq_false_iff, and_assoc]

theorem mapM_eq_ok {α β ε : Type} {f : α → Except ε β} {g : α → β} {l : List α}
    (h : ∀ a ∈ l, f a = .ok (g a)) : l.mapM f = .ok (l.map g) := by
  induction l with
  | nil => rfl
  | cons a l ih =>
    rw [List.mapM_cons, h a List.mem_cons_self, ih fun b hb => h b (List.mem_cons_of_mem a hb)]
    rfl

theorem sectionLines_eq (callees : Stmt → List MethodId) (m : Method) :
    sectionLines (viewOf callees) m = .ok (linesOf callees m) := by
  have hfilter : (m.calls.filter fun s => !(viewOf callees s).isEmpty) =
      m.calls.filter fun s => !(callees s).isEmpty := by
    simp only [viewOf, List.isEmpty_map]
  unfold sectionLines
  rw [hfilter, mapM_eq_ok (g := lineOf callees)]
  · rfl
  · intro s hs
    rw [formatCallees_viewOf]
    rfl

theorem sectionText?_eq (callees : Stmt → List MethodId) (m : Method) :
    sectionText? (viewOf callees) m =
      .ok ((sectionOf? callees m).map fun ls => String.ofList (Text.unlines ls)) := by
  unfold sectionText? sectionOf?
  rw [sectionLines_eq]
  show (if (linesOf callees m).isEmpty = true then _ else _) = _
  by_cases hm : linesOf callees m = []
  · rw [if_pos (List.isEmpty_iff.mpr hm), if_pos hm]
    rfl
  · rw [if_neg (mt List.isEmpty_iff.mp hm), if_neg hm]
    refine congrArg (fun text => Except.ok (some text)) (String.toList_inj.mp ?_)
    simp [Text.unlines, String.toList_join, List.flatMap_map]

/-- The text that is written is that of the lines. -/
theorem dump_eq (p : Program) (callees : Stmt → List MethodId) :
    dump p (viewOf callees) = .ok (String.ofList
      (Text.unlines (goldenLines callees p.methods))) := by
  unfold dump
  rw [mapM_eq_ok fun m _ => sectionText?_eq callees m]
  refine congrArg Except.ok (String.toList_inj.mp ?_)
  rw [String.toList_ofList, String.toList_intercalate, goldenLines, ← Text.intercalate_unlines,
    List.filterMap_map, List.map_filterMap, List.map_filterMap]
  congr 2
  funext m
  simp [Function.comp_def]

/-! ## Reading what was written -/

theorem sectionOf?_eq_some {ls : List (List Char)} : sectionOf? callees m = some ls ↔
    linesOf callees m ≠ [] ∧ ls = m.signature.toList :: (linesOf callees m).map String.toList := by
  unfold sectionOf?
  split_ifs with h
  · simp [h]
  · simp [h, eq_comm]

theorem Reads.sections {ms : List Method}
    (hshort : ∀ m ∈ ms, linesOf callees m ≠ [] → m.signature.utf8ByteSize ≤ maxLine)
    (hlines : ∀ m ∈ ms, ∀ l ∈ linesOf callees m, ∃ unit given, IsEntry l.toList unit given)
    (section? : Option String) :
    ∃ es, Reads section? (goldenLines callees ms) es ∧
      ∀ e, e ∈ es ↔ ∃ m ∈ ms, e.method = m.signature ∧
        ∃ l ∈ linesOf callees m, IsEntry l.toList e.unit e.callees := by
  induction ms generalizing section? with
  | nil => exact ⟨[], fun n => rfl, by simp⟩
  | cons m ms ih =>
    have ih' := ih (fun m' hm' => hshort m' (List.mem_cons_of_mem m hm'))
      (fun m' hm' => hlines m' (List.mem_cons_of_mem m hm'))
    by_cases hm : linesOf callees m = []
    · have hnone : sectionOf? callees m = none := if_pos hm
      obtain ⟨es, hes, hmem⟩ := ih' section?
      refine ⟨es, ?_, fun e => ?_⟩
      · rwa [goldenLines, List.filterMap_cons_none hnone]
      · rw [hmem e, List.exists_mem_cons_iff, hm]
        simp
    · obtain ⟨es, hes, hmem⟩ := ih' (some m.signature)
      have hsome : sectionOf? callees m = some
          (m.signature.toList :: (linesOf callees m).map String.toList) :=
        if_neg hm
      -- After the section comes a blank line and the next section, or nothing.
      have htail : ∃ tail, Reads (some m.signature) tail es ∧
          goldenLines callees (m :: ms) = m.signature.toList ::
            ((linesOf callees m).map String.toList ++ tail) := by
        rw [goldenLines, List.filterMap_cons_some hsome]
        cases hrest : ms.filterMap (sectionOf? callees) with
        | nil =>
          rw [goldenLines, hrest] at hes
          exact ⟨[], hes, by simp⟩
        | cons s rest =>
          rw [goldenLines, hrest] at hes
          exact ⟨_, hes.blank, by rw [List.intercalate_cons_cons]; simp⟩
      obtain ⟨tail, htail, heq⟩ := htail
      have hentries : ∀ l ∈ (linesOf callees m).map String.toList,
          ∃ unit given, IsEntry l unit given := by
        intro l hl
        obtain ⟨line, hline, rfl⟩ := List.mem_map.mp hl
        exact hlines m List.mem_cons_self line hline
      obtain ⟨new, hnew, hnewmem⟩ := htail.entries hentries
      refine ⟨new ++ es, ?_, fun e => ?_⟩
      · rw [heq]
        exact hnew.heading (hshort m List.mem_cons_self hm)
      · rw [List.mem_append, hnewmem e, hmem e, List.exists_mem_cons_iff]
        simp only [List.mem_map, exists_exists_and_eq_and]

/-- The conditions under which the golden file of a call graph can be read back. -/
structure Writable (p : Program) (callees : Stmt → List MethodId) : Prop where
  /-- Signatures tell methods apart. -/
  distinct : (p.methods.map Method.signature).Nodup
  signature : ∀ m ∈ p.methods, '\n' ∉ m.signature.toList
  /-- No line is too long. -/
  short : ∀ text, dump p (viewOf callees) = .ok text → ∀ line ∈ Text.rawLines text.toList,
    (String.ofList line).utf8ByteSize ≤ maxLine
  newline : ∀ m ∈ p.methods, ∀ s ∈ m.calls, callees s ≠ [] → '\n' ∉ (lineOf callees s).toList
  head : ∀ m ∈ p.methods, ∀ s ∈ m.calls, callees s ≠ [] → (lineOf callees s).toList.head? ≠ some '<'
  /-- The first arrow of a line stands behind the text of the call. -/
  arrow : ∀ m ∈ p.methods, ∀ s ∈ m.calls, callees s ≠ [] → ∀ before after,
    (lineOf callees s).toList = before ++ " -> ".toList ++ after →
    (unitText s).length ≤ before.length

namespace Writable

theorem newline_not_mem (h : Writable p callees) :
    ∀ l ∈ goldenLines callees p.methods, '\n' ∉ l := by
  intro l hl
  rcases Text.mem_intercalate hl with rfl | ⟨ls, hls, hl⟩
  · exact List.not_mem_nil
  · obtain ⟨m, hm, hsection⟩ := List.mem_filterMap.mp hls
    obtain ⟨-, rfl⟩ := sectionOf?_eq_some.mp hsection
    rcases List.mem_cons.mp hl with rfl | hl
    · exact h.signature m hm
    · obtain ⟨line, hline, rfl⟩ := List.mem_map.mp hl
      obtain ⟨s, hs, hcallees, rfl⟩ := mem_linesOf.mp hline
      exact h.newline m hm s hs hcallees

/-- The lines of the text are the lines that were written. -/
theorem rawLines_dump (h : Writable p callees) :
    Text.rawLines (String.ofList (Text.unlines (goldenLines callees p.methods))).toList =
      goldenLines callees p.methods := by
  rw [String.toList_ofList, Text.rawLines_unlines h.newline_not_mem]

theorem short_of_mem (h : Writable p callees) (hm : m ∈ p.methods) (hlines : linesOf callees m ≠ [])
    {l : List Char} (hl : l ∈ m.signature.toList :: (linesOf callees m).map String.toList) :
    (String.ofList l).utf8ByteSize ≤ maxLine := by
  refine h.short _ (dump_eq p callees) l ?_
  rw [h.rawLines_dump]
  exact Text.mem_intercalate_of_mem (List.mem_filterMap.mpr ⟨m, hm, if_neg hlines⟩) hl

/-- The line of a call is read as what the call runs. -/
theorem isEntry (h : Writable p callees) (hm : m ∈ p.methods) (hs : s ∈ m.calls)
    (hcallees : callees s ≠ []) :
    IsEntry (lineOf callees s).toList (unitText s) (calleesText (callees s)) := by
  have hline : lineOf callees s ∈ linesOf callees m := mem_linesOf.mpr ⟨s, hs, hcallees, rfl⟩
  have htext : (lineOf callees s).toList =
      (unitText s).toList ++ " -> ".toList ++ (calleesText (callees s)).toList := by
    rw [lineOf, String.toList_append, String.toList_append]
  refine ⟨?_, h.head m hm s hs hcallees, ?_, ?_⟩
  · rw [htext]
    refine Text.cut_append_append (by decide) fun b a hba => ?_
    rw [String.length_toList]
    exact h.arrow m hm s hs hcallees b a (htext.trans hba)
  · rw [htext, calleesText, String.toList_append, ← List.append_assoc]
    exact List.getLast?_concat
  · exact h.short_of_mem hm (List.ne_nil_of_mem hline)
      (List.mem_cons_of_mem _ (List.mem_map_of_mem hline))

/-- The golden file is read as what the calls with callees run. -/
theorem parse_dump (h : Writable p callees) :
    ∃ text es, dump p (viewOf callees) = .ok text ∧ parse text = .ok es ∧
      ∀ e, e ∈ es ↔ ∃ m ∈ p.methods, ∃ s ∈ m.calls, callees s ≠ [] ∧
        e = ⟨m.signature, unitText s, calleesText (callees s)⟩ := by
  have hshort : ∀ m ∈ p.methods, linesOf callees m ≠ [] → m.signature.utf8ByteSize ≤ maxLine := by
    intro m hm hlines
    have := h.short_of_mem hm hlines List.mem_cons_self
    rwa [String.ofList_toList] at this
  have hlines : ∀ m ∈ p.methods, ∀ l ∈ linesOf callees m,
      ∃ unit given, IsEntry l.toList unit given := by
    intro m hm l hl
    obtain ⟨s, hs, hcallees, rfl⟩ := mem_linesOf.mp hl
    exact ⟨_, _, h.isEntry hm hs hcallees⟩
  obtain ⟨es, hes, hmem⟩ := Reads.sections hshort hlines none
  refine ⟨_, es, dump_eq p callees, ?_, fun e => ?_⟩
  · rw [parse, h.rawLines_dump]
    exact hes 1
  · rw [hmem e]
    constructor
    · rintro ⟨m, hm, hmethod, l, hl, he⟩
      obtain ⟨s, hs, hcallees, rfl⟩ := mem_linesOf.mp hl
      obtain ⟨hunit, hgiven⟩ := he.unique (h.isEntry hm hs hcallees)
      exact ⟨m, hm, s, hs, hcallees, by rw [← hmethod, ← hunit, ← hgiven]⟩
    · rintro ⟨m, hm, s, hs, hcallees, rfl⟩
      exact ⟨m, hm, rfl, _, mem_linesOf.mpr ⟨s, hs, hcallees, rfl⟩, h.isEntry hm hs hcallees⟩

end Writable

/-! ## Comparing -/

theorem expected?_eq_some {es : List Expectation} {method unit given : String}
    (h : expected? es method unit = some given) : ⟨method, unit, given⟩ ∈ es := by
  obtain ⟨e, he, rfl⟩ := Option.map_eq_some_iff.mp h
  obtain ⟨rfl, rfl⟩ : e.method = method ∧ e.unit = unit := by simpa using List.find?_some he
  exact List.mem_reverse.mp (List.mem_of_find?_eq_some he)

theorem expected?_ne_none {es : List Expectation} {e : Expectation} (h : e ∈ es) :
    expected? es e.method e.unit ≠ none := by
  intro hnone
  have hfind := List.find?_eq_none.mp (Option.map_eq_none_iff.mp hnone) e (List.mem_reverse.mpr h)
  simp at hfind

namespace Checker

variable {c : Checker}

theorem mismatches_eq_nil : c.mismatches = [] ↔ c.found = [] := by
  unfold mismatches
  simp only [List.eq_nil_iff_forall_not_mem, List.mem_eraseDups, Text.sortTexts, Text.mem_sortBy]

theorem mismatch?_eq_none {es : List Expectation} {method unit given : String} {hasCallees : Bool} :
    mismatch? es method unit given hasCallees = none ↔
      (∀ e, expected? es method unit = some e → e = given) ∧
        (expected? es method unit = none → hasCallees = false) := by
  unfold mismatch?
  cases expected? es method unit with
  | none => simp
  | some e => simp

end Checker

theorem shown_viewOf {s : Stmt} : Shown (viewOf callees) s ↔ s.text?.isSome := by
  have hcallees : none ∉ viewOf callees s := by simp [viewOf]
  rw [Shown, and_iff_left hcallees, Option.ne_none_iff_isSome]

theorem difference?_viewOf {es : List Expectation} {sig : String} (hs : s.text?.isSome) :
    difference? es (viewOf callees) (sig, s) =
      Checker.mismatch? es sig (unitText s) (calleesText (callees s))
        (!(viewOf callees s).isEmpty) := by
  obtain ⟨unit, hunit⟩ := Option.isSome_iff_exists.mp hs
  unfold difference? unitText
  dsimp only
  rw [hunit, formatCallees_viewOf]
  rfl

/-- There is no difference at any call if calls of one method that have the same text have the same
callees. -/
theorem mismatch?_dump_eq_none_iff (h : Writable p callees) {es : List Expectation}
    (hes : ∀ e, e ∈ es ↔ ∃ m ∈ p.methods, ∃ s ∈ m.calls, callees s ≠ [] ∧
      e = ⟨m.signature, unitText s, calleesText (callees s)⟩) (hm : m ∈ p.methods) :
    (∀ s ∈ m.calls, Checker.mismatch? es m.signature (unitText s) (calleesText (callees s))
        (!(viewOf callees s).isEmpty) = none) ↔
      ∀ s ∈ m.calls, ∀ s' ∈ m.calls, unitText s = unitText s' →
        calleesText (callees s) = calleesText (callees s') := by
  constructor
  · intro hagrees s hs s' hs' hunit
    obtain ⟨hsome, hnone⟩ := Checker.mismatch?_eq_none.mp (hagrees s hs)
    obtain ⟨hsome', hnone'⟩ := Checker.mismatch?_eq_none.mp (hagrees s' hs')
    rw [hunit] at hsome hnone
    cases hexp : expected? es m.signature (unitText s') with
    | some e => rw [← hsome e hexp, ← hsome' e hexp]
    | none =>
      have hempty : callees s = [] := by simpa [viewOf] using hnone hexp
      have hempty' : callees s' = [] := by simpa [viewOf] using hnone' hexp
      rw [hempty, hempty']
  · intro hsame s hs
    refine Checker.mismatch?_eq_none.mpr ⟨fun e he => ?_, fun hnone => ?_⟩
    · obtain ⟨m', hm', s', hs', -, heq⟩ := (hes _).mp (expected?_eq_some he)
      obtain ⟨hmethod, hunit, rfl⟩ := Expectation.mk.inj heq
      obtain rfl : m = m' := List.inj_on_of_nodup_map h.distinct hm hm' hmethod
      exact hsame s' hs' s hs hunit.symm
    · by_contra hcallees
      have hne : callees s ≠ [] := by simpa [viewOf] using hcallees
      exact expected?_ne_none ((hes _).mpr ⟨m, hm, s, hs, hne, rfl⟩) hnone

/-- The golden file of a call graph is read without an error. A comparison of it with the same call
graph goes to its end if every call has a text, and then finds a difference if and only if two calls
of a method have the same text and different callees. -/
theorem compare_dump (h : Writable p callees) :
    ∃ text es, dump p (viewOf callees) = .ok text ∧ parse text = .ok es ∧
      ∃ f c, Checker.compareAll (viewOf callees) p.methods { expectations := es } = (f, c) ∧
        (f = none ↔ ∀ m ∈ p.methods, ∀ s ∈ m.calls, s.text?.isSome) ∧
        (f = none → (c.mismatches = [] ↔ ∀ m ∈ p.methods, ∀ s ∈ m.calls, ∀ s' ∈ m.calls,
          s.text? = s'.text? →
            formatCallees (viewOf callees s) = formatCallees (viewOf callees s'))) := by
  obtain ⟨text, es, hdump, hparse, hes⟩ := h.parse_dump
  have hsites : ∀ {q : String × Stmt → Prop}, (∀ x ∈ sites p.methods, q x) ↔
      ∀ m ∈ p.methods, ∀ s ∈ m.calls, q (m.signature, s) := by
    simp only [sites, List.forall_mem_flatMap, List.forall_mem_map, implies_true]
  refine ⟨text, es, hdump, hparse, _, _, rfl, ?_, fun hf => ?_⟩
  · rw [compareAll_eq, fst_compared_eq_none_iff, hsites]
    simp only [shown_viewOf]
  · rw [compareAll_eq] at hf ⊢
    have hshown := fst_compared_eq_none_iff.mp hf
    have htext : ∀ m ∈ p.methods, ∀ s ∈ m.calls, s.text?.isSome := fun m hm s hs =>
      shown_viewOf.mp (hsites.mp hshown m hm s hs)
    rw [Checker.mismatches_eq_nil, found_compared_eq_nil_iff hshown, hsites, and_iff_right rfl]
    refine forall₂_congr fun m hm => Iff.trans ?_ ((mismatch?_dump_eq_none_iff h hes hm).trans ?_)
    · exact forall₂_congr fun s hs => by rw [difference?_viewOf (htext m hm s hs)]
    refine forall₂_congr fun s hs => forall₂_congr fun s' hs' => ?_
    obtain ⟨unit, hunit⟩ := Option.isSome_iff_exists.mp (htext m hm s hs)
    obtain ⟨unit', hunit'⟩ := Option.isSome_iff_exists.mp (htext m hm s' hs')
    rw [formatCallees_viewOf, formatCallees_viewOf, Except.ok.injEq, unitText, unitText,
      hunit, hunit',
      Option.getD_some, Option.getD_some, Option.some.injEq]

/-- A method that calls two overloads in the same words, and then a method that is not found. -/
def overloads : Method where
  cls := "Main"
  sub := ⟨"main", [], .prim .void⟩
  static := true
  abstract := false
  native := false
  body := [(0, "x.put(y)"), (1, "x.put(y)"), (2, "x.close()")].map fun (i, label) =>
    ⟨⟨⟨"Main", "void main()"⟩, i⟩, .call { kind := .virtual, ref := {}, label }⟩

/-- A program with the one method. -/
def overloadsProgram : Program where
  hierarchy := { table := ({} : ClassTable).setMethod overloads }

/-- The first two calls run different methods. -/
def overloadsCallees (s : Stmt) : List MethodId :=
  match s.id.serial with
  | 0 => [⟨"Map", "void put(Key)"⟩]
  | 1 => [⟨"Map", "void put(Entry)"⟩, ⟨"Tree", "void put(Entry)"⟩]
  | _ => []

theorem writable_overloads : Writable overloadsProgram overloadsCallees where
  distinct := by decide +kernel
  signature := by decide +kernel
  short := by
    intro text htext
    obtain rfl := Except.ok.inj ((dump_eq _ _).symm.trans htext)
    decide +kernel
  newline := by decide +kernel
  head := by decide +kernel
  arrow := by
    intro m hm s hs hcallees before after hline
    have hcut : ∀ m ∈ overloadsProgram.methods, ∀ s ∈ m.calls,
        Text.cut " -> ".toList (lineOf overloadsCallees s).toList =
          some ((unitText s).toList, (calleesText (overloadsCallees s)).toList) := by decide +kernel
    have hs' := hcut m hm s hs
    rw [hline] at hs'
    rw [← String.length_toList]
    exact Text.length_le_of_cut hs'

/-- The comparison goes to its end and finds a difference at the calls with the same text. -/
theorem compare_dump_overloads : ∃ text es c,
    dump overloadsProgram (viewOf overloadsCallees) = .ok text ∧ parse text = .ok es ∧
      Checker.compareAll (viewOf overloadsCallees) overloadsProgram.methods { expectations := es } =
        (none, c) ∧ c.mismatches ≠ [] := by
  obtain ⟨text, es, hdump, hparse, f, c, hrun, hfault, hfound⟩ := compare_dump writable_overloads
  obtain rfl : f = none := hfault.mpr (by decide +kernel)
  refine ⟨text, es, c, hdump, hparse, hrun, fun hnil => ?_⟩
  exact absurd ((hfound rfl).mp hnil) (by decide +kernel)

end Golden

end PointsTo
