import PointsTo.Proofs.Expectations
import PointsTo.Proofs.Reach
import PointsTo.Proofs.Sorted

/-!
# The differences that comparisons find

A checker compares single methods and whole programs with a golden file, in any order and as often
as one likes. What each comparison finds is a matter of the calls that it gets to (`compared`). So
the list of differences is that of all calls that were reached, each difference once and in order,
and says nothing about how they were come by (`Comparison.mismatches_exact`).
-/

namespace PointsTo

/-! ## Lists without repetitions -/

theorem eraseDups_sublist {α : Type} [DecidableEq α] : ∀ l : List α, l.eraseDups.Sublist l
  | [] => .slnil
  | a :: l => by
    rw [List.eraseDups_cons]
    exact ((eraseDups_sublist _).trans List.filter_sublist).cons_cons a
termination_by l => l.length
decreasing_by exact Nat.lt_succ_of_le (List.length_filter_le _ _)

namespace Golden

theorem Checker.pairwise_mismatches (c : Checker) : c.mismatches.Pairwise (· < ·) := by
  have hle : c.mismatches.Pairwise (· ≤ ·) :=
    (Text.pairwise_sortBy id c.found).sublist (eraseDups_sublist _)
  exact (hle.and (nodup_eraseDups _)).imp fun h => lt_of_le_of_ne h.1 h.2

theorem Checker.mem_mismatches {c : Checker} {message : String} :
    message ∈ c.mismatches ↔ message ∈ c.found := by
  unfold mismatches Text.sortTexts
  rw [List.mem_eraseDups, Text.mem_sortBy]

/-- The list is determined by what is in it. -/
theorem Checker.mismatches_ext {c c' : Checker}
    (h : ∀ message, message ∈ c.mismatches ↔ message ∈ c'.mismatches) :
    c.mismatches = c'.mismatches :=
  c.pairwise_mismatches.eq_of_mem_iff c'.pairwise_mismatches h

/-! ## The difference at a call -/

variable {view : CalleeView} {es : List Expectation} {x : String × Stmt} {text : String}

/-- A call differs from what a text expects of it: something else is expected, or nothing is and it
runs something. -/
def Differs (text : String) (view : CalleeView) (sig : String) (s : Stmt) (message : String) :
    Prop :=
  ∃ unit expected given, s.text? = some unit ∧ formatCallees (view s) = .ok given ∧
    message = "Callees of " ++ unit ++ ", expected: " ++ expected ++ ", given: " ++ given ∧
    (Expects (textLines text) sig unit expected ∧ expected ≠ given ∨
      (∀ e, ¬ Expects (textLines text) sig unit e) ∧ expected = "[]" ∧ view s ≠ [])

theorem Checker.mismatch?_eq_some_iff {method unit given message : String} {hasCallees : Bool} :
    mismatch? es method unit given hasCallees = some message ↔
      ∃ expected, message = mismatchText unit expected given ∧
      (expected? es method unit = some expected ∧ expected ≠ given ∨
        expected? es method unit = none ∧ expected = "[]" ∧ hasCallees = true) := by
  unfold mismatch?
  cases expected? es method unit with
  | none => cases hasCallees <;> simp [eq_comm]
  | some e =>
    by_cases he : e = given
    · simp [he]
    · simp only [if_neg he, Option.some.injEq]
      constructor
      · rintro rfl
        exact ⟨e, rfl, Or.inl ⟨rfl, he⟩⟩
      · rintro ⟨expected, rfl, ⟨rfl, -⟩ | ⟨hnone, -⟩⟩
        · rfl
        · cases hnone

theorem eq_ok_of_toOption {ε α : Type} {r : Except ε α} {a : α} (h : r.toOption = some a) :
    r = .ok a := by
  cases r with
  | error e => cases h
  | ok b => exact congrArg Except.ok (Option.some.inj h)

/-- Whether there is a difference at a call is a matter of the text. -/
theorem difference?_eq_some_iff (hparse : parse text = .ok es) {message : String} :
    difference? es view x = some message ↔ Differs text view x.1 x.2 message := by
  obtain rfl := eq_entriesAfter_of_parse hparse
  have hnone (unit : String) : expected? (entriesAfter [] (textLines text)) x.1 unit = none ↔
      ∀ e, ¬ Expects (textLines text) x.1 unit e := by
    simp only [Option.eq_none_iff_forall_ne_some, ne_eq, expected?_entriesAfter_eq_some_iff]
  unfold difference? Differs
  constructor
  · intro h
    obtain ⟨unit, hunit, h⟩ := Option.bind_eq_some_iff.mp h
    obtain ⟨given, hgiven, h⟩ := Option.bind_eq_some_iff.mp h
    obtain ⟨expected, hmessage, h⟩ := Checker.mismatch?_eq_some_iff.mp h
    rw [expected?_entriesAfter_eq_some_iff, hnone, Bool.not_eq_true',
      List.isEmpty_eq_false_iff] at h
    exact ⟨unit, expected, given, hunit, eq_ok_of_toOption hgiven, hmessage, h⟩
  · rintro ⟨unit, expected, given, hunit, hgiven, rfl, h⟩
    rw [← expected?_entriesAfter_eq_some_iff, ← hnone, ← List.isEmpty_eq_false_iff,
      ← Bool.not_eq_true'] at h
    rw [hunit, hgiven]
    exact Checker.mismatch?_eq_some_iff.mpr ⟨expected, rfl, h⟩

/-! ## Comparisons one after the other -/

/-- What a checker may be asked to compare. -/
inductive Comparison
  | method (m : Method)
  | program (p : Program)

namespace Comparison

/-- The methods that are compared. -/
def methods : Comparison → List Method
  | method m => [m]
  | program p => p.methods

/-- The operation of a comparison. -/
def run (view : CalleeView) : Comparison → Checker → Option Fault × Checker
  | method m, c => c.compare view m
  | program p, c => c.compareAll view p.methods

/-- The checker after comparisons, each of which may end with a fault. -/
def runAll (view : CalleeView) (qs : List Comparison) (c : Checker) : Checker :=
  qs.foldl (fun c q => (q.run view c).2) c

/-- A method is among those that are compared. -/
def Covers (qs : List Comparison) (m : Method) : Prop := ∃ q ∈ qs, m ∈ q.methods

theorem run_eq (q : Comparison) (view : CalleeView) (c : Checker) :
    q.run view c = compared view (sites q.methods) c := by
  cases q with
  | method m =>
    have hsites : sites [m] = m.calls.map (m.signature, ·) := List.flatMap_singleton ..
    rw [methods, hsites]
    exact compareCalls_eq view m.signature m.calls c
  | program p => exact compareAll_eq view p.methods c

/-- Comparisons find the differences at the calls that they get to. -/
theorem found_runAll (view : CalleeView) (qs : List Comparison) (c : Checker) :
    (runAll view qs c).found = c.found ++ qs.flatMap fun q =>
      (reached view (sites q.methods)).flatMap
        fun x => (difference? c.expectations view x).toList := by
  unfold runAll
  induction qs generalizing c with
  | nil => simp
  | cons q qs ih =>
    rw [List.foldl_cons, ih, run_eq, List.flatMap_cons, ← List.append_assoc]
    rfl

theorem mem_mismatches_iff (hparse : parse text = .ok es) (view : CalleeView) (qs : List Comparison)
    (message : String) :
    message ∈ (runAll view qs { expectations := es }).mismatches ↔
      ∃ q ∈ qs, ∃ x ∈ reached view (sites q.methods), Differs text view x.1 x.2 message := by
  rw [Checker.mem_mismatches, found_runAll, List.nil_append]
  simp only [List.mem_flatMap, Option.mem_toList, difference?_eq_some_iff hparse]

/-- Where every call can be compared, all calls of all methods count. -/
theorem mem_mismatches_iff_of_shown (hparse : parse text = .ok es) {qs : List Comparison}
    (hshown : ∀ m, Covers qs m → ∀ s ∈ m.calls, Shown view s) (message : String) :
    message ∈ (runAll view qs { expectations := es }).mismatches ↔
      ∃ m, Covers qs m ∧ ∃ s ∈ m.calls, Differs text view m.signature s message := by
  rw [mem_mismatches_iff hparse]
  constructor
  · rintro ⟨q, hq, x, hx, hdiffers⟩
    obtain ⟨m, hm, hs, hsig⟩ := mem_sites.mp ((List.takeWhile_sublist _).subset hx)
    exact ⟨m, ⟨q, hq, hm⟩, x.2, hs, hsig ▸ hdiffers⟩
  · rintro ⟨m, ⟨q, hq, hm⟩, s, hs, hdiffers⟩
    have hreached : reached view (sites q.methods) = sites q.methods := by
      refine reached_of_shown fun x hx => ?_
      obtain ⟨m', hm', hs', -⟩ := mem_sites.mp hx
      exact hshown m' ⟨q, hq, hm'⟩ x.2 hs'
    refine ⟨q, hq, (m.signature, s), ?_, hdiffers⟩
    rw [hreached]
    exact mem_sites.mpr ⟨m, hm, hs, rfl⟩

/-- What comparisons with a golden file find, where `es` is what is read from it. -/
structure Exact (text : String) (es : List Expectation) (view : CalleeView) (qs : List Comparison) :
    Prop where
  /-- A comparison has a fault if and only if a call of its methods has no text or an absent
  callee. -/
  fault : ∀ (q : Comparison) (c : Checker),
    (q.run view c).1 = none ↔ ∀ m ∈ q.methods, ∀ s ∈ m.calls, Shown view s
  /-- Differences are in strictly increasing order. -/
  sorted : (runAll view qs { expectations := es }).mismatches.Pairwise (· < ·)
  /-- The differences are those at the calls that were reached. -/
  mem_iff : ∀ message, message ∈ (runAll view qs { expectations := es }).mismatches ↔
    ∃ q ∈ qs, ∃ x ∈ reached view (sites q.methods), Differs text view x.1 x.2 message
  /-- Neither the order nor repetitions of the comparisons count. -/
  order : ∀ qs', (∀ q, q ∈ qs' ↔ q ∈ qs) →
    (runAll view qs' { expectations := es }).mismatches =
      (runAll view qs { expectations := es }).mismatches
  /-- If there was no fault, the differences are those at the calls of all methods that were
  compared. -/
  mem_iff_of_shown : (∀ m, Covers qs m → ∀ s ∈ m.calls, Shown view s) →
    ∀ message, message ∈ (runAll view qs { expectations := es }).mismatches ↔
      ∃ m, Covers qs m ∧ ∃ s ∈ m.calls, Differs text view m.signature s message
  /-- If there was no fault, other comparisons of the same methods find the same. -/
  order_of_shown : (∀ m, Covers qs m → ∀ s ∈ m.calls, Shown view s) →
    ∀ qs', (∀ m, Covers qs' m ↔ Covers qs m) →
      (runAll view qs' { expectations := es }).mismatches =
        (runAll view qs { expectations := es }).mismatches

/-- After any comparisons with a golden file the list of differences is exact. -/
theorem mismatches_exact (hparse : parse text = .ok es) (view : CalleeView) (qs : List Comparison) :
    Exact text es view qs where
  fault q c := by
    rw [run_eq, fst_compared_eq_none_iff]
    constructor
    · intro h m hm s hs
      exact h (m.signature, s) (mem_sites.mpr ⟨m, hm, hs, rfl⟩)
    · intro h x hx
      obtain ⟨m, hm, hs, -⟩ := mem_sites.mp hx
      exact h m hm x.2 hs
  sorted := Checker.pairwise_mismatches _
  mem_iff := mem_mismatches_iff hparse view qs
  order qs' hqs := by
    refine Checker.mismatches_ext fun message => ?_
    rw [mem_mismatches_iff hparse, mem_mismatches_iff hparse]
    simp only [hqs]
  mem_iff_of_shown := mem_mismatches_iff_of_shown hparse
  order_of_shown hshown qs' hcovers := by
    refine Checker.mismatches_ext fun message => ?_
    rw [mem_mismatches_iff_of_shown hparse hshown,
      mem_mismatches_iff_of_shown hparse fun m hm => hshown m ((hcovers m).mp hm)]
    simp only [hcovers]

/-- A text that expects the first of two calls in the same words, but not the second. -/
def overloadsText : String := "<Main: void main()>\nx.put(y) -> [<Map: void put(Key)>]\n"

/-- The program as a whole, and then its method once more. -/
def overloadsComparisons : List Comparison := [program overloadsProgram, method overloads]

theorem mismatches_exact_overloads :
    let es : List Expectation := [⟨"<Main: void main()>", "x.put(y)", "[<Map: void put(Key)>]"⟩]
    let qs := overloadsComparisons
    parse overloadsText = .ok es ∧
    (∃ m, Covers qs m ∧ ∃ s ∈ m.calls, Differs overloadsText (viewOf overloadsCallees) m.signature s
      ("Callees of x.put(y), expected: [<Map: void put(Key)>], " ++
        "given: [<Map: void put(Entry)>, <Tree: void put(Entry)>]")) ∧
    (runAll (viewOf overloadsCallees) (qs.reverse ++ qs) { expectations := es }).mismatches =
      (runAll (viewOf overloadsCallees) qs { expectations := es }).mismatches := by
  intro es qs
  have hparse : parse overloadsText = .ok es := by decide +kernel
  have hshown : ∀ m, Covers qs m → ∀ s ∈ m.calls, Shown (viewOf overloadsCallees) s := by
    rintro m ⟨q, hq, hm⟩
    have hall : ∀ q ∈ qs, ∀ m ∈ q.methods, ∀ s ∈ m.calls, Shown (viewOf overloadsCallees) s := by
      decide +kernel
    exact hall q hq m hm
  have hexact := mismatches_exact hparse (viewOf overloadsCallees) qs
  refine ⟨hparse, (hexact.mem_iff_of_shown hshown _).mp (by decide +kernel),
    hexact.order_of_shown hshown (qs.reverse ++ qs) fun m => ?_⟩
  simp [Covers]

end Comparison

end Golden

end PointsTo
