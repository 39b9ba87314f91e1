import Mathlib.Data.List.TakeWhile
import Mathlib.Tactic.SplitIfs
import PointsTo.Golden

/-!
# One comparison with a golden file

A comparison goes through the calls of its methods up to the first one that has no text or an absent
callee, and what it finds is a matter of these calls alone (`compared`). What is compared with what
was written, and what comparisons one after the other find, both rest on this.
-/

namespace PointsTo

theorem allSome_eq_none_iff {α : Type} {l : List (Option α)} : allSome l = none ↔ none ∈ l := by
  induction l with
  | nil => simp [allSome]
  | cons a l ih =>
    cases a with
    | none => simp [allSome]
    | some a => simp [allSome, ih]

namespace Golden

variable {view : CalleeView} {c : Checker} {x : String × Stmt} {xs : List (String × Stmt)}

/-- A call that can be compared. -/
def Shown (view : CalleeView) (s : Stmt) : Prop := s.text? ≠ none ∧ none ∉ view s

instance (view : CalleeView) (s : Stmt) : Decidable (Shown view s) :=
  inferInstanceAs (Decidable (_ ∧ _))

/-- The calls of methods, each with the signature of its method. -/
def sites (ms : List Method) : List (String × Stmt) :=
  ms.flatMap fun m => m.calls.map (m.signature, ·)

/-- The calls that a comparison gets to. -/
def reached (view : CalleeView) (xs : List (String × Stmt)) : List (String × Stmt) :=
  xs.takeWhile fun x => Shown view x.2

/-- The difference at a call. -/
def difference? (es : List Expectation) (view : CalleeView) (x : String × Stmt) :
    Option String := do
  let unit ← x.2.text?
  let given ← (formatCallees (view x.2)).toOption
  Checker.mismatch? es x.1 unit given !(view x.2).isEmpty

/-- What comes of comparing calls. -/
def compared (view : CalleeView) (xs : List (String × Stmt)) (c : Checker) :
    Option Fault × Checker :=
  (if ∀ x ∈ xs, Shown view x.2 then none else some .absent,
    { c with found := c.found ++ (reached view xs).flatMap fun x =>
      (difference? c.expectations view x).toList })

theorem exists_formatCallees {ms : List (Option MethodId)} (h : none ∉ ms) :
    ∃ given, formatCallees ms = .ok given := by
  obtain ⟨as, has⟩ := Option.ne_none_iff_exists'.mp (mt allSome_eq_none_iff.mp h)
  unfold formatCallees signatures
  rw [has]
  exact ⟨_, rfl⟩

theorem not_mem_of_formatCallees {ms : List (Option MethodId)} {given : String}
    (h : formatCallees ms = .ok given) :
    none ∉ ms := by
  intro hmem
  unfold formatCallees signatures at h
  rw [allSome_eq_none_iff.mpr hmem] at h
  cases h

theorem shown_iff {s : Stmt} :
    Shown view s ↔ ∃ unit given, s.text? = some unit ∧ formatCallees (view s) = .ok given := by
  constructor
  · rintro ⟨htext, hcallees⟩
    obtain ⟨unit, hunit⟩ := Option.ne_none_iff_exists'.mp htext
    obtain ⟨given, hgiven⟩ := exists_formatCallees hcallees
    exact ⟨unit, given, hunit, hgiven⟩
  · rintro ⟨unit, given, hunit, hgiven⟩
    exact ⟨by rw [hunit]; exact Option.some_ne_none unit, not_mem_of_formatCallees hgiven⟩

theorem mem_sites {ms : List Method} :
    x ∈ sites ms ↔ ∃ m ∈ ms, x.2 ∈ m.calls ∧ m.signature = x.1 := by
  unfold sites
  rw [List.mem_flatMap]
  refine exists_congr fun m => and_congr_right fun _ => ?_
  rw [List.mem_map]
  constructor
  · rintro ⟨s, hs, rfl⟩
    exact ⟨hs, rfl⟩
  · rintro ⟨hs, hsig⟩
    exact ⟨x.2, hs, Prod.ext hsig rfl⟩

theorem fst_compared_eq_none_iff : (compared view xs c).1 = none ↔ ∀ x ∈ xs, Shown view x.2 := by
  unfold compared
  split_ifs with h
  · exact iff_of_true rfl h
  · exact iff_of_false id h

theorem compared_nil (view : CalleeView) (c : Checker) : compared view [] c = (none, c) := by
  simp [compared, reached]

/-- A call that can be compared adds its difference, if there is one. -/
theorem compared_cons_of_shown (hx : Shown view x.2) (xs : List (String × Stmt)) (c : Checker) :
    compared view (x :: xs) c =
      compared view xs
        { c with found := c.found ++ (difference? c.expectations view x).toList } := by
  have hreached : reached view (x :: xs) = x :: reached view xs :=
    List.takeWhile_cons_of_pos (decide_eq_true hx)
  unfold compared
  rw [hreached, List.flatMap_cons, List.append_assoc]
  refine Prod.ext (if_congr ?_ rfl rfl) rfl
  rw [List.forall_mem_cons, and_iff_right hx]

/-- Any other call ends the comparison. -/
theorem compared_cons_of_not_shown (hx : ¬ Shown view x.2) (xs : List (String × Stmt))
    (c : Checker) :
    compared view (x :: xs) c = (some .absent, c) := by
  have hreached : reached view (x :: xs) = [] := List.takeWhile_cons_of_neg (by simpa using hx)
  unfold compared
  rw [if_neg fun h => hx (h x List.mem_cons_self), hreached, List.flatMap_nil, List.append_nil]

theorem compared_append_of_shown (hxs : ∀ x ∈ xs, Shown view x.2) (ys : List (String × Stmt))
    (c : Checker) :
    compared view (xs ++ ys) c = compared view ys (compared view xs c).2 := by
  induction xs generalizing c with
  | nil => rw [compared_nil, List.nil_append]
  | cons x xs ih =>
    rw [List.forall_mem_cons] at hxs
    rw [List.cons_append, compared_cons_of_shown hxs.1, ih hxs.2, compared_cons_of_shown hxs.1]

theorem compared_append_of_not_shown (hxs : ¬ ∀ x ∈ xs, Shown view x.2) (ys : List (String × Stmt))
    (c : Checker) :
    compared view (xs ++ ys) c = compared view xs c := by
  induction xs generalizing c with
  | nil => simp at hxs
  | cons x xs ih =>
    rw [List.cons_append]
    by_cases hx : Shown view x.2
    · rw [List.forall_mem_cons, and_iff_right hx] at hxs
      rw [compared_cons_of_shown hx, compared_cons_of_shown hx, ih hxs]
    · rw [compared_cons_of_not_shown hx, compared_cons_of_not_shown hx]

theorem compareCalls_eq (view : CalleeView) (method : String) (calls : List Stmt) (c : Checker) :
    Checker.compareCalls view method calls c = compared view (calls.map (method, ·)) c := by
  induction calls generalizing c with
  | nil => exact (compared_nil view c).symm
  | cons s calls ih =>
    unfold Checker.compareCalls
    rw [List.map_cons]
    by_cases hs : Shown view s
    · obtain ⟨unit, given, hunit, hgiven⟩ := shown_iff.mp hs
      rw [compared_cons_of_shown hs, hunit, hgiven]
      dsimp only
      rw [ih, difference?]
      dsimp only
      rw [hunit, hgiven]
      rfl
    · rw [compared_cons_of_not_shown hs]
      split
      · next unit given hunit hgiven => exact absurd (shown_iff.mpr ⟨unit, given, hunit, hgiven⟩) hs
      · rfl

theorem compareAll_eq (view : CalleeView) (ms : List Method) (c : Checker) :
    Checker.compareAll view ms c = compared view (sites ms) c := by
  induction ms generalizing c with
  | nil => exact (compared_nil view c).symm
  | cons m ms ih =>
    have hm : c.compare view m = compared view (m.calls.map (m.signature, ·)) c :=
      compareCalls_eq ..
    have hsites : sites (m :: ms) = m.calls.map (m.signature, ·) ++ sites ms := List.flatMap_cons
    rw [Checker.compareAll, hm, hsites]
    by_cases hshown : ∀ x ∈ m.calls.map (m.signature, ·), Shown view x.2
    · have hpair : compared view (m.calls.map (m.signature, ·)) c = (none, _) :=
        Prod.ext (if_pos hshown) rfl
      rw [compared_append_of_shown hshown, ← ih, hpair]
    · have hpair : compared view (m.calls.map (m.signature, ·)) c = (some .absent, _) :=
        Prod.ext (if_neg hshown) rfl
      rw [compared_append_of_not_shown hshown, hpair]

/-! ## Comparisons that go to their end -/

theorem reached_of_shown (hxs : ∀ x ∈ xs, Shown view x.2) : reached view xs = xs :=
  List.takeWhile_eq_self_iff.mpr fun x hx => decide_eq_true (hxs x hx)

/-- Nothing is found if there is no difference at any call. -/
theorem found_compared_eq_nil_iff (hxs : ∀ x ∈ xs, Shown view x.2) :
    (compared view xs c).2.found = [] ↔
      c.found = [] ∧ ∀ x ∈ xs, difference? c.expectations view x = none := by
  have hfound : (compared view xs c).2.found =
      c.found ++ xs.flatMap fun x => (difference? c.expectations view x).toList := by
    unfold compared
    rw [reached_of_shown hxs]
  rw [hfound, List.append_eq_nil_iff, List.flatMap_eq_nil_iff]
  simp only [Option.toList_eq_nil_iff]

end Golden

end PointsTo
