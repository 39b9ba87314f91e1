import Mathlib.Data.List.DropRight
import Mathlib.Data.List.Infix
import Mathlib.Data.List.TakeWhile
import Mathlib.Tactic.Common
import PointsTo.Text.Blank
import PointsTo.Text.Split

/-!
# Trimming, cutting and joining

1. What is left after trimming is empty or `Solid`, that is without a blank at either end. Solid
   texts are not changed by trimming, and texts that are put together from solid ones are solid.
2. `cut` divides a text at the first separator: the parts make up the text, and there is no
   separator in the first (`eq_append_of_cut`, `not_infix_of_cut`). Where there is none in the first
   part, putting the parts together is undone (`cut_of_not_mem`, `cut_of_not_infix`).
3. Texts that are joined by a character which is in none of them can be taken apart again
   (`pieces_intercalate`).
-/

namespace PointsTo.Text

variable {cs : List Char}

/-! ## Trimming -/

theorem mem_of_mem_trimLeft {c : Char} (h : c ∈ trimLeft cs) : c ∈ cs :=
  (List.dropWhile_sublist _).subset h

theorem mem_of_mem_trim {c : Char} (h : c ∈ trim cs) : c ∈ cs := by
  have h' : c ∈ (trimLeft cs).reverse.dropWhile isBlank := List.mem_reverse.mp h
  exact mem_of_mem_trimLeft (List.mem_reverse.mp ((List.dropWhile_sublist _).subset h'))

theorem trim_ne_nil {c : Char} (hc : c ∈ cs) (hblank : isBlank c = false) : trim cs ≠ [] := by
  have hleft : c ∈ trimLeft cs := by
    rw [← List.takeWhile_append_dropWhile (p := isBlank) (l := cs)] at hc
    rcases List.mem_append.mp hc with h | h
    · exact absurd (List.mem_takeWhile_imp h) (by simp [hblank])
    · exact h
  intro h
  have hall :=
    List.dropWhile_eq_nil_iff.mp (List.reverse_eq_nil_iff.mp h) c (List.mem_reverse.mpr hleft)
  exact absurd hall (by simp [hblank])

/-- The text begins and ends with characters that are not blank. -/
structure Solid (cs : List Char) : Prop where
  head : ∃ c, cs.head? = some c ∧ isBlank c = false
  last : ∃ c, cs.getLast? = some c ∧ isBlank c = false

theorem Solid.ne_nil (h : Solid cs) : cs ≠ [] := by
  rintro rfl
  obtain ⟨c, hc, -⟩ := h.head
  exact nomatch hc

theorem Solid.trim_eq (h : Solid cs) : trim cs = cs := by
  have hkeep : ∀ {cs : List Char}, (∃ c, cs.head? = some c ∧ isBlank c = false) →
      cs.dropWhile isBlank = cs := by
    rintro (_ | ⟨c, cs⟩) ⟨d, hd, hblank⟩
    · rfl
    · obtain rfl := Option.some.inj hd
      exact List.dropWhile_cons_of_neg (by simp [hblank])
  have hlast : ∃ c, cs.reverse.head? = some c ∧ isBlank c = false := by
    rw [List.head?_reverse]
    exact h.last
  rw [trim, trimLeft, hkeep h.head, trimRight, hkeep hlast, List.reverse_reverse]

theorem solid_trim (h : trim cs ≠ []) : Solid (trim cs) where
  head := by
    -- the end that is dropped is not all, so the first character stays
    have hprefix : trim cs <+: trimLeft cs := by
      rw [trim, trimRight, ← List.reverse_suffix, List.reverse_reverse]
      exact List.dropWhile_suffix _
    have hne : cs.dropWhile isBlank ≠ [] :=
      fun hnil => h (List.prefix_nil.mp (by rwa [trimLeft, hnil] at hprefix))
    refine ⟨_, ?_, List.head_dropWhile_not isBlank hne⟩
    rw [← List.head?_eq_some_head hne]
    obtain ⟨rest, hrest⟩ := hprefix
    show (trim cs).head? = (trimLeft cs).head?
    rw [← hrest, List.head?_append_of_ne_nil _ h]
  last := by
    have hne : (trimLeft cs).reverse.dropWhile isBlank ≠ [] :=
      fun hnil => h (by rw [trim, trimRight, hnil]; rfl)
    refine ⟨_, ?_, List.head_dropWhile_not isBlank hne⟩
    rw [← List.head?_eq_some_head hne, trim, trimRight, List.getLast?_reverse]

theorem Solid.exists_not_blank (h : Solid cs) : ∃ c ∈ cs, isBlank c = false := by
  obtain ⟨c, hc, hblank⟩ := h.head
  exact ⟨c, List.mem_of_mem_head? hc, hblank⟩

theorem Solid.append {before after : List Char} (hb : Solid before) (ha : Solid after)
    (mid : List Char) :
    Solid (before ++ mid ++ after) where
  head := by
    rw [List.append_assoc, List.head?_append_of_ne_nil _ hb.ne_nil]
    exact hb.head
  last := by
    rw [List.getLast?_append_of_ne_nil _ ha.ne_nil]
    exact ha.last

theorem solid_intercalate {sep p : List Char} {ps : List (List Char)} (h : ∀ q ∈ p :: ps, Solid q) :
    Solid (sep.intercalate (p :: ps)) := by
  induction ps generalizing p with
  | nil =>
    rw [List.intercalate_singleton]
    exact h p List.mem_cons_self
  | cons q qs ih =>
    rw [List.intercalate_cons_cons]
    exact (h p List.mem_cons_self).append (ih fun r hr => h r (List.mem_cons_of_mem p hr)) sep

/-! ## Cutting -/

/-- The parts and the separator between them make up the text. -/
theorem eq_append_of_cut {sep before after : List Char} (h : cut sep cs = some (before, after)) :
    cs = before ++ sep ++ after := by
  induction cs generalizing before with
  | nil =>
    unfold cut at h
    split_ifs at h with hsep
    obtain ⟨rfl, rfl⟩ := Prod.mk.inj (Option.some.inj h)
    simpa using List.isEmpty_iff.mp hsep
  | cons c cs ih =>
    unfold cut at h
    split_ifs at h with hpre
    · obtain ⟨rfl, rfl⟩ := Prod.mk.inj (Option.some.inj h)
      obtain ⟨rest, hrest⟩ := List.isPrefixOf_iff_prefix.mp hpre
      rw [← hrest, List.drop_left, List.nil_append]
    · obtain ⟨⟨b, a⟩, hcut, heq⟩ := Option.map_eq_some_iff.mp h
      obtain ⟨rfl, rfl⟩ := Prod.mk.inj heq
      rw [List.cons_append, List.cons_append, ← ih hcut]

theorem cut_append_append {sep before after : List Char} (hsep : sep ≠ [])
    (h : ∀ b a, before ++ sep ++ after = b ++ sep ++ a → before.length ≤ b.length) :
    cut sep (before ++ sep ++ after) = some (before, after) := by
  induction before with
  | nil =>
    obtain ⟨c, cs, rfl⟩ := List.exists_cons_of_ne_nil hsep
    rw [List.nil_append, List.cons_append, cut, if_pos]
    · rw [← List.cons_append, List.drop_left]
    · simp
  | cons c before ih =>
    rw [List.cons_append, List.cons_append, cut, if_neg, ih]
    · rfl
    · intro b a hba
      have hle := h (c :: b) a (by rw [List.cons_append, List.cons_append, hba]; rfl)
      exact Nat.le_of_succ_le_succ hle
    · intro hpre
      obtain ⟨a, ha⟩ := List.isPrefixOf_iff_prefix.mp hpre
      have hle := h [] a (by rw [List.nil_append, ha]; rfl)
      exact absurd hle (Nat.not_succ_le_zero _)

theorem length_le_of_cut {sep before after b a : List Char}
    (hcut : cut sep (b ++ sep ++ a) = some (before, after)) :
    before.length ≤ b.length := by
  induction b generalizing before with
  | nil =>
    have hpre : sep.isPrefixOf (sep ++ a) := by simp
    rw [List.nil_append] at hcut
    cases hcs : sep ++ a with
    | nil =>
      rw [hcs, cut, if_pos (by simp_all)] at hcut
      exact (Prod.mk.inj (Option.some.inj hcut)).1 ▸ Nat.le_refl _
    | cons c cs =>
      rw [hcs] at hcut hpre
      rw [cut, if_pos hpre] at hcut
      exact (Prod.mk.inj (Option.some.inj hcut)).1 ▸ Nat.le_refl _
  | cons c b ih =>
    rw [List.cons_append, List.cons_append, cut] at hcut
    split_ifs at hcut
    · exact (Prod.mk.inj (Option.some.inj hcut)).1 ▸ Nat.zero_le _
    · obtain ⟨⟨before', after'⟩, hcut', heq⟩ := Option.map_eq_some_iff.mp hcut
      obtain ⟨rfl, rfl⟩ := Prod.mk.inj heq
      exact Nat.succ_le_succ (ih hcut')

/-- The separator at which a text is divided is the first one. -/
theorem not_infix_of_cut {sep before after : List Char} (hsep : sep ≠ [])
    (h : cut sep cs = some (before, after)) :
    ¬ sep <:+: before := by
  rintro ⟨b, a, rfl⟩
  obtain rfl := eq_append_of_cut h
  rw [List.append_assoc _ sep after, List.append_assoc (b ++ sep)] at h
  have hle := length_le_of_cut h
  have hpos := List.length_pos_of_ne_nil hsep
  simp only [List.length_append] at hle
  omega

theorem subset_of_cut {sep before after : List Char} (h : cut sep cs = some (before, after)) :
    (∀ c ∈ before, c ∈ cs) ∧ ∀ c ∈ after, c ∈ cs := by
  obtain rfl := eq_append_of_cut h
  exact ⟨fun c hc => List.mem_append_left _ (List.mem_append_left _ hc),
    fun c hc => List.mem_append_right _ hc⟩

theorem not_mem_of_cut {a : Char} {before after : List Char}
    (h : cut [a] cs = some (before, after)) : a ∉ before :=
  fun hmem => not_infix_of_cut (List.cons_ne_nil a []) h
    ((List.singleton_infix_iff a before).mpr hmem)

theorem cut_of_not_mem {a : Char} {before : List Char} (h : a ∉ before) (after : List Char) :
    cut [a] (before ++ a :: after) = some (before, after) := by
  induction before with
  | nil => simp [cut]
  | cons c before ih =>
    have hc : a ≠ c := fun hc => h (hc ▸ List.mem_cons_self)
    rw [List.cons_append, cut, if_neg (by simpa using hc),
      ih fun hmem => h (List.mem_cons_of_mem c hmem)]
    rfl

/-- Two different characters that stand next to each other do not overlap with what comes before
them. -/
theorem cut_of_not_infix {a b : Char} (hab : a ≠ b) {before : List Char} (h : ¬ [a, b] <:+: before)
    (after : List Char) : cut [a, b] (before ++ [a, b] ++ after) = some (before, after) := by
  induction before with
  | nil => simp [cut]
  | cons c before ih =>
    have hrest : ¬ [a, b] <:+: before :=
      fun hmem => h (hmem.trans (List.suffix_cons c before).isInfix)
    have hpre : ¬ [a, b].isPrefixOf (c :: (before ++ [a, b] ++ after)) = true := by
      intro hpre
      cases before with
      | nil =>
        exact hab (by simpa [eq_comm] using
          (List.cons_prefix_cons.mp (List.isPrefixOf_iff_prefix.mp hpre)).2)
      | cons d before =>
        have hpre' : [a, b] <+: c :: d :: before := by
          simpa using List.isPrefixOf_iff_prefix.mp hpre
        exact h hpre'.isInfix
    rw [List.cons_append, List.cons_append, cut, if_neg hpre, ih hrest]
    rfl

/-! ## Pieces -/

theorem not_mem_of_mem_pieces {a : Char} : ∀ p ∈ pieces a cs, a ∉ p := by
  induction cs with
  | nil => simp [pieces]
  | cons c cs ih =>
    unfold pieces
    split_ifs with hc
    · simpa using ih
    · split
      · simp [Ne.symm hc]
      · next p ps hps =>
        rw [hps] at ih
        intro q hq
        rcases List.mem_cons.mp hq with rfl | hq
        · simpa [Ne.symm hc] using ih p List.mem_cons_self
        · exact ih q (List.mem_cons_of_mem _ hq)

theorem pieces_append_cons {a : Char} {line : List Char} (h : a ∉ line) (rest : List Char) :
    pieces a (line ++ a :: rest) = line :: pieces a rest := by
  induction line with
  | nil => simp [pieces]
  | cons c cs ih =>
    have hc : c ≠ a := fun hc => h (hc ▸ List.mem_cons_self)
    rw [List.cons_append, pieces, if_neg hc, ih fun hcs => h (List.mem_cons_of_mem c hcs)]

theorem pieces_eq_singleton {a : Char} {p : List Char} (h : a ∉ p) : pieces a p = [p] := by
  induction p with
  | nil => rfl
  | cons c cs ih =>
    have hc : c ≠ a := fun hc => h (hc ▸ List.mem_cons_self)
    rw [pieces, if_neg hc, ih fun hcs => h (List.mem_cons_of_mem c hcs)]

/-- Texts that are joined by a character which is in none of them can be taken apart again. -/
theorem pieces_intercalate {a : Char} {p : List Char} {ps : List (List Char)}
    (h : ∀ q ∈ p :: ps, a ∉ q) :
    pieces a ([a].intercalate (p :: ps)) = p :: ps := by
  induction ps generalizing p with
  | nil => rw [List.intercalate_singleton, pieces_eq_singleton (h p List.mem_cons_self)]
  | cons q qs ih =>
    rw [List.intercalate_cons_cons, List.append_assoc, List.singleton_append,
      pieces_append_cons (h p List.mem_cons_self), ih fun r hr => h r (List.mem_cons_of_mem p hr)]

end PointsTo.Text
