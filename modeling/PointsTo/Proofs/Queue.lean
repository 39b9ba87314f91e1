import Mathlib.Tactic.Common
import PointsTo.Queue

/-!
# The queue as a list

`Queue.toList` is what still waits. As long as the head stays within the array (`Queue.InBounds`,
which every operation keeps), pushing appends to that list and popping takes its first element;
cutting off the consumed part cannot be seen.

Whatever is pushed and popped, the outcomes are those of a plain list, and the consumed part stays
short or less than half of the array (`run_eq_runList`).
-/

namespace PointsTo.Queue

variable {α : Type} {q q' : Queue α} {a : α}

/-- The head has not run past the end of the array. -/
def InBounds (q : Queue α) : Prop := q.head ≤ q.elements.size

theorem inBounds_empty : (empty : Queue α).InBounds := Nat.le_refl 0

theorem isEmpty_iff : q.isEmpty = true ↔ q.toList = [] := by
  unfold isEmpty toList
  rw [decide_eq_true_iff, List.drop_eq_nil_iff, Array.length_toList]

theorem InBounds.push (h : q.InBounds) (a : α) : (q.push a).InBounds := by
  show q.head ≤ (q.elements.push a).size
  rw [Array.size_push]
  exact Nat.le_succ_of_le h

theorem toList_push (h : q.InBounds) (a : α) : (q.push a).toList = q.toList ++ [a] := by
  unfold toList Queue.push
  rw [Array.toList_push, List.drop_append_of_le_length]
  exact h

theorem pushAll_inBounds_toList (as : List α) : ∀ {q : Queue α}, q.InBounds →
    (q.pushAll as).InBounds ∧ (q.pushAll as).toList = q.toList ++ as := by
  induction as with
  | nil => exact fun h => ⟨h, (List.append_nil _).symm⟩
  | cons a as ih =>
    intro q h
    obtain ⟨hin, hlist⟩ := ih (h.push a)
    refine ⟨hin, ?_⟩
    show ((q.push a).pushAll as).toList = _
    rw [hlist, toList_push h, List.append_assoc, List.singleton_append]

theorem InBounds.pushAll (h : q.InBounds) (as : List α) : (q.pushAll as).InBounds :=
  (pushAll_inBounds_toList as h).1

theorem toList_pushAll (h : q.InBounds) (as : List α) : (q.pushAll as).toList = q.toList ++ as :=
  (pushAll_inBounds_toList as h).2

/-! ## Taking the oldest element -/

theorem InBounds.compact (h : q.InBounds) : q.compact.InBounds := by
  unfold Queue.compact
  split_ifs
  · exact Nat.zero_le _
  · exact h

theorem toList_compact : q.compact.toList = q.toList := by
  unfold Queue.compact
  split_ifs
  · show (q.elements.extract q.head q.elements.size).toList = q.elements.toList.drop q.head
    rw [Array.toList_extract, List.extract_eq_take_drop]
    exact List.take_of_length_le (by simp)
  · rfl

theorem pop?_eq_none_iff : q.pop? = none ↔ q.toList = [] := by
  unfold pop? toList
  split_ifs with h
  · simp only [false_iff, List.drop_eq_nil_iff, Array.length_toList]
    omega
  · simp only [true_iff, List.drop_eq_nil_iff, Array.length_toList]
    omega

/-- Taking an element moves the head, and may cut off the consumed part. -/
theorem of_pop? (h : q.pop? = some (a, q')) :
    ∃ hlt : q.head < q.elements.size, q.elements[q.head] = a ∧
      compact { q with head := q.head + 1 } = q' := by
  unfold pop? at h
  split_ifs at h with hlt
  exact ⟨hlt, Prod.mk.inj (Option.some.inj h)⟩

/-- What is taken is the first element that waits, and the others go on waiting. -/
theorem toList_of_pop? (h : q.pop? = some (a, q')) : q.toList = a :: q'.toList := by
  obtain ⟨hlt, rfl, rfl⟩ := of_pop? h
  rw [toList_compact]
  unfold toList
  rw [List.drop_eq_getElem_cons (by simpa using hlt), Array.getElem_toList]

theorem InBounds.of_pop? (h : q.pop? = some (a, q')) : q'.InBounds := by
  obtain ⟨hlt, -, rfl⟩ := Queue.of_pop? h
  exact InBounds.compact (q := { q with head := q.head + 1 }) hlt

theorem size_eq_length (q : Queue α) : q.size = q.toList.length := by
  simp [size, toList]

theorem isEmpty_eq (q : Queue α) : q.isEmpty = q.toList.isEmpty := by
  rw [Bool.eq_iff_iff, isEmpty_iff, List.isEmpty_iff]

/-! ## Taking several elements -/

/-- As many elements are taken as there are, and what was not taken goes on waiting. -/
theorem popMany_eq (q : Queue α) (n : Nat) :
    ∃ q', q.popMany n = (q.toList.take n, decide (n ≤ q.toList.length), q') ∧
    q'.toList = q.toList.drop n := by
  induction n generalizing q with
  | zero => exact ⟨q, by simp [popMany], rfl⟩
  | succ n ih =>
    unfold popMany
    cases hpop : q.pop? with
    | none => exact ⟨q, by simp [pop?_eq_none_iff.mp hpop], by simp [pop?_eq_none_iff.mp hpop]⟩
    | some r =>
      obtain ⟨a, q₁⟩ := r
      obtain ⟨q', heq, hlist⟩ := ih q₁
      refine ⟨q', ?_, ?_⟩
      · simp [heq, toList_of_pop? hpop]
      · simp [hlist, toList_of_pop? hpop]

theorem popMany_of_toList_eq_nil (h : q.toList = []) (n : Nat) : (q.popMany n).2.2 = q := by
  cases n with
  | zero => rfl
  | succ n => rw [popMany, pop?_eq_none_iff.mpr h]

/-! ## Any number of operations -/

/-- The consumed part lies within the array, and is short or less than half of it. -/
structure Trim (q : Queue α) : Prop where
  inBounds : q.InBounds
  short : q.head < 64 ∨ 2 * q.head < q.elements.size

theorem trim_empty : (empty : Queue α).Trim := ⟨inBounds_empty, Or.inl (Nat.zero_lt_succ 63)⟩

theorem Trim.push (h : q.Trim) (a : α) : (q.push a).Trim := by
  refine ⟨h.inBounds.push a, ?_⟩
  have hshort := h.short
  show q.head < 64 ∨ 2 * q.head < (q.elements.push a).size
  rw [Array.size_push]
  omega

theorem InBounds.trim_compact (h : q.InBounds) : q.compact.Trim := by
  refine ⟨h.compact, ?_⟩
  unfold Queue.compact
  split_ifs with hlong
  · exact Or.inl (Nat.zero_lt_succ 63)
  · omega

theorem Trim.of_pop? (h : q.pop? = some (a, q')) : q'.Trim := by
  obtain ⟨hlt, -, rfl⟩ := Queue.of_pop? h
  exact InBounds.trim_compact (q := { q with head := q.head + 1 }) hlt

/-- What may be done to a queue. -/
inductive Op (α : Type)
  | push (a : α)
  | pop

/-- Does one thing after the other: what each taking brought, if anything, and the queue that is
left. -/
def run (q : Queue α) : List (Op α) → List (Option α) × Queue α
  | [] => ([], q)
  | .push a :: ops => (q.push a).run ops
  | .pop :: ops =>
    match q.pop? with
    | none => (none :: (q.run ops).1, (q.run ops).2)
    | some (a, q') => (some a :: (q'.run ops).1, (q'.run ops).2)

/-- The same with a plain list, in which new elements come to the back and old ones leave at the
front. -/
def Op.runList (waiting : List α) : List (Op α) → List (Option α) × List α
  | [] => ([], waiting)
  | .push a :: ops => runList (waiting ++ [a]) ops
  | .pop :: ops => (waiting.head? :: (runList waiting.tail ops).1, (runList waiting.tail ops).2)

/-- What a run brings and leaves does not show that the elements are kept in an array. -/
theorem Trim.run (hq : q.Trim) (ops : List (Op α)) :
    (q.run ops).1 = (Op.runList q.toList ops).1 ∧
    (q.run ops).2.toList = (Op.runList q.toList ops).2 ∧
      (q.run ops).2.Trim := by
  induction ops generalizing q with
  | nil => exact ⟨rfl, rfl, hq⟩
  | cons op ops ih =>
    cases op with
    | push a =>
      rw [Queue.run, Op.runList, ← toList_push hq.inBounds]
      exact ih (hq.push a)
    | pop =>
      rw [Queue.run, Op.runList]
      cases hpop : q.pop? with
      | none =>
        have hnil := pop?_eq_none_iff.mp hpop
        obtain ⟨hout, hleft, htrim⟩ := ih hq
        rw [hnil] at hout hleft
        simp [hnil, hout, hleft, htrim]
      | some r =>
        obtain ⟨a, q'⟩ := r
        obtain ⟨hout, hleft, htrim⟩ := ih (Trim.of_pop? hpop)
        simp [toList_of_pop? hpop, hout, hleft, htrim]

/-- Whatever is pushed and popped in whatever order, a queue brings what a plain list brings and is
as long as the list. Nothing can be taken exactly if nothing waits, and then the queue stays as it
is. The consumed part stays short or less than half of the array. -/
theorem run_eq_runList (ops : List (Op α)) :
    let q := ((empty : Queue α).run ops).2
    let waiting := (Op.runList ([] : List α) ops).2
    ((empty : Queue α).run ops).1 = (Op.runList ([] : List α) ops).1 ∧
    (q.size = waiting.length ∧ q.isEmpty = waiting.isEmpty ∧ q.toList = waiting) ∧
    ((q.pop? = none ↔ waiting = []) ∧ (waiting = [] → q.run [.pop] = ([none], q) ∧
      ∀ n, (q.popMany n).2.2 = q)) ∧
    (∀ n, ∃ q', q.popMany n = (waiting.take n, decide (n ≤ waiting.length), q') ∧
      q'.toList = waiting.drop n) ∧
    q.head ≤ q.elements.size ∧ (q.head < 64 ∨ 2 * q.head < q.elements.size) := by
  intro q waiting
  obtain ⟨hout, hleft, htrim⟩ := trim_empty.run ops
  have hwaiting : q.toList = waiting := hleft
  refine ⟨hout, ⟨?_, ?_, hwaiting⟩, ⟨?_, fun hnil => ⟨?_, fun n => ?_⟩⟩,
    fun n => ?_, htrim.inBounds, htrim.short⟩
  · rw [size_eq_length, hwaiting]
  · rw [isEmpty_eq, hwaiting]
  · rw [pop?_eq_none_iff, hwaiting]
  · rw [run, pop?_eq_none_iff.mpr (hwaiting.trans hnil)]
    rfl
  · exact popMany_of_toList_eq_nil (hwaiting.trans hnil) n
  · rw [← hwaiting]
    exact popMany_eq q n

end PointsTo.Queue
