import Mathlib.Data.List.Nodup
import Mathlib.Data.List.Perm.Subperm
import Mathlib.Logic.Relation
import Mathlib.Order.WellFounded
import PointsTo.ClassTable.Reach
import PointsTo.Proofs.ClassTable

/-!
# Walks through supertypes end

The walks through a class table are cut off after a number of levels that depends on the size of the
table. They end before that, so the number does not matter.

1. `levels_eq_levels`: a walk by levels within a finite set of nodes gives the same list for all
   numbers of levels that are at least the size of the set.
2. `ClassTable.Complete`: the supertypes of the classes of a table are classes of the table.
   Declared tables are complete (`Declared.complete`).
3. `ancestors_eq`, `chain_eq` and `superinterfaces_eq` say it for classes. A superclass chain may go
   round in circles; the one from `c` is finite if `c` is accessible, and all are if `FiniteChains`
   holds. A walk that was cut off has no end (`isEndless_iff`).
4. The supertypes of a class are exactly what links lead to (`mem_ancestors_iff`). Superclasses and
   superinterfaces are among them.
-/

namespace PointsTo

/-! ## Walks by levels -/

section Levels

variable {α : Type} [DecidableEq α] {next : α → List α} {a : α}

theorem mem_levels_of_mem_seen :
    ∀ {n : Nat} {frontier seen : List α}, a ∈ seen → a ∈ levels next n frontier seen
  | 0, _, _, h => h
  | n + 1, frontier, seen, h => by
    unfold levels
    dsimp only
    split_ifs
    · exact h
    · exact mem_levels_of_mem_seen (List.mem_append_left _ h)

theorem mem_fresh {frontier seen : List α} :
    a ∈ (frontier.filter fun a => a ∉ seen).eraseDups ↔ a ∈ frontier ∧ a ∉ seen := by
  rw [List.mem_eraseDups, List.mem_filter, decide_eq_true_iff]

theorem mem_levels_of_mem_frontier {n : Nat} {frontier seen : List α} (h : a ∈ frontier) :
    a ∈ levels next (n + 1) frontier seen := by
  by_cases hs : a ∈ seen
  · exact mem_levels_of_mem_seen hs
  · have hfresh := mem_fresh.mpr ⟨h, hs⟩
    unfold levels
    dsimp only
    split_ifs with hempty
    · rw [List.isEmpty_iff.mp hempty] at hfresh
      exact absurd hfresh List.not_mem_nil
    · exact mem_levels_of_mem_seen (List.mem_append_right _ hfresh)

theorem nodup_eraseDups : ∀ l : List α, l.eraseDups.Nodup
  | [] => List.nodup_nil
  | a :: l => by
    rw [List.eraseDups_cons, List.nodup_cons, List.mem_eraseDups]
    exact ⟨by simp, nodup_eraseDups _⟩
termination_by l => l.length
decreasing_by exact Nat.lt_succ_of_le (List.length_filter_le _ _)

/-- A walk by levels meets no node twice. -/
theorem nodup_levels : ∀ {n : Nat} {frontier seen : List α},
    seen.Nodup → (levels next n frontier seen).Nodup
  | 0, _, _, h => h
  | n + 1, frontier, seen, h => by
    unfold levels
    dsimp only
    split_ifs
    · exact h
    · refine nodup_levels (List.nodup_append'.mpr ⟨h, nodup_eraseDups _, fun a hs hfresh => ?_⟩)
      exact (mem_fresh.mp hfresh).2 hs

/-- What passes from a node to its successors holds of all nodes that are met, if it holds where the
walk starts. -/
theorem levels_induction {q : α → Prop} (hnext : ∀ a, q a → ∀ b ∈ next a, q b) : ∀ {n : Nat}
    {frontier seen : List α}, (∀ a ∈ frontier, q a) → (∀ a ∈ seen, q a) →
    ∀ a ∈ levels next n frontier seen, q a
  | 0, _, _, _, hseen => hseen
  | n + 1, frontier, seen, hfrontier, hseen => by
    have hfresh : ∀ a ∈ (frontier.filter fun a => a ∉ seen).eraseDups, q a := fun a ha =>
      hfrontier a (mem_fresh.mp ha).1
    unfold levels
    dsimp only
    split_ifs
    · exact hseen
    · refine levels_induction hnext (fun b hb => ?_) (List.forall_mem_append.mpr ⟨hseen, hfresh⟩)
      obtain ⟨a, ha, hb⟩ := List.mem_flatMap.mp hb
      exact hnext a (hfresh a ha) b hb

/-- A walk that meets nothing new has ended. -/
theorem levels_of_subset {frontier seen : List α} (h : ∀ a ∈ frontier, a ∈ seen) (n : Nat) :
    levels next n frontier seen = seen := by
  cases n with
  | zero => rfl
  | succ n =>
    have hfresh : (frontier.filter fun a => a ∉ seen).eraseDups = [] :=
      List.eq_nil_iff_forall_not_mem.mpr fun a ha => (mem_fresh.mp ha).2 (h a (mem_fresh.mp ha).1)
    unfold levels
    dsimp only
    rw [hfresh]
    rfl

/-- When a node is met, fewer nodes are left to meet. -/
theorem length_unmet_lt {u seen fresh : List α} (hu : a ∈ u) (hs : a ∉ seen) (ha : a ∈ fresh) :
    (u.filter fun b => b ∉ seen ++ fresh).length < (u.filter fun b => b ∉ seen).length := by
  have hsplit : (u.filter fun b => b ∉ seen ++ fresh) =
      (u.filter fun b => b ∉ seen).filter fun b => b ∉ fresh := by
    rw [List.filter_filter]
    refine List.filter_congr fun b _ => ?_
    simp [List.mem_append, Bool.and_comm]
  rw [hsplit, List.length_filter_lt_length_iff_exists]
  exact ⟨a, List.mem_filter.mpr ⟨hu, decide_eq_true hs⟩, by simpa using ha⟩

variable {u : List α}

theorem mem_seen_of_length_le_zero {frontier seen : List α} (hu : ∀ a ∈ frontier, a ∈ u)
    (hlen : (u.filter fun a => a ∉ seen).length ≤ 0) : ∀ a ∈ frontier, a ∈ seen := by
  intro a ha
  by_contra hs
  have hmem : a ∈ u.filter fun a => a ∉ seen := List.mem_filter.mpr ⟨hu a ha, decide_eq_true hs⟩
  exact absurd (List.length_pos_of_mem hmem) (Nat.not_lt.mpr hlen)

variable (hnext : ∀ a ∈ u, ∀ b ∈ next a, b ∈ u)

include hnext

/-- A walk within the nodes of `u` ends after as many levels as there are nodes left to meet. -/
theorem levels_eq_levels {n : Nat} :
    ∀ {n' : Nat} {frontier seen : List α}, (∀ a ∈ frontier, a ∈ u) →
    (u.filter fun a => a ∉ seen).length ≤ n → (u.filter fun a => a ∉ seen).length ≤ n' →
    levels next n frontier seen = levels next n' frontier seen := by
  induction n with
  | zero =>
    intro n' frontier seen hu hn _
    have hend := mem_seen_of_length_le_zero hu hn
    rw [levels_of_subset hend, levels_of_subset hend]
  | succ n ih =>
    intro n' frontier seen hu hn hn'
    cases n' with
    | zero =>
      have hend := mem_seen_of_length_le_zero hu hn'
      rw [levels_of_subset hend, levels_of_subset hend]
    | succ n' =>
      unfold levels
      dsimp only
      split_ifs with hempty
      · rfl
      · obtain ⟨a, ha⟩ := List.exists_mem_of_ne_nil _ (mt List.isEmpty_iff.mpr hempty)
        obtain ⟨hfrontier, hseen⟩ := mem_fresh.mp ha
        have hless := length_unmet_lt (hu a hfrontier) hseen ha
        refine ih ?_ (by omega) (by omega)
        intro b hb
        obtain ⟨c, hc, hb⟩ := List.mem_flatMap.mp hb
        exact hnext c (hu c (mem_fresh.mp hc).1) b hb

/-- A walk that has enough levels meets the successors of what it meets. -/
theorem mem_levels_of_mem_next {n : Nat} : ∀ {frontier seen : List α}, (∀ a ∈ frontier, a ∈ u) →
    (u.filter fun a => a ∉ seen).length ≤ n → (∀ a ∈ seen, ∀ b ∈ next a, b ∈ seen ∨ b ∈ frontier) →
    ∀ a ∈ levels next n frontier seen, ∀ b ∈ next a, b ∈ levels next n frontier seen := by
  induction n with
  | zero =>
    intro frontier seen hu hn hseen a ha b hb
    exact (hseen a ha b hb).elim id (mem_seen_of_length_le_zero hu hn b)
  | succ n ih =>
    intro frontier seen hu hn hseen
    have hmet : ∀ {b}, b ∈ frontier → b ∈ seen ∨
        b ∈ (frontier.filter fun a => a ∉ seen).eraseDups :=
      fun {b} hb => or_iff_not_imp_left.mpr fun hs => mem_fresh.mpr ⟨hb, hs⟩
    unfold levels
    dsimp only
    split_ifs with hempty
    · intro a ha b hb
      refine (hseen a ha b hb).elim id fun hb => (hmet hb).resolve_right ?_
      rw [List.isEmpty_iff.mp hempty]
      exact List.not_mem_nil
    · obtain ⟨a, ha⟩ := List.exists_mem_of_ne_nil _ (mt List.isEmpty_iff.mpr hempty)
      obtain ⟨hfrontier, hnew⟩ := mem_fresh.mp ha
      have hless := length_unmet_lt (hu a hfrontier) hnew ha
      refine ih ?_ (by omega) fun a ha b hb => ?_
      · intro b hb
        obtain ⟨c, hc, hb⟩ := List.mem_flatMap.mp hb
        exact hnext c (hu c (mem_fresh.mp hc).1) b hb
      · rw [List.mem_append] at ha ⊢
        rcases ha with ha | ha
        · exact Or.inl ((hseen a ha b hb).elim Or.inl hmet)
        · exact Or.inr (List.mem_flatMap.mpr ⟨a, ha, hb⟩)

end Levels

namespace ClassTable

variable {t : ClassTable} {c d : String} {n : Nat}

/-! ## Complete tables -/

/-- The supertypes of the classes of the table are classes of the table, and so is the root
class. -/
structure Complete (t : ClassTable) : Prop where
  object : objectName ∈ t.names
  supertypes : ∀ c ∈ t.names, ∀ d ∈ (t.info c).supertypes, d ∈ t.names

theorem mem_names : c ∈ t.names ↔ ∃ i, t.entries[c]? = some i := by
  unfold names
  rw [Std.TreeMap.mem_keys, ← Std.TreeMap.isSome_getElem?_iff_mem, Option.isSome_iff_exists]

theorem length_names (t : ClassTable) : t.names.length = t.size := Std.TreeMap.length_keys

/-- Only classes of the table have interfaces, and other classes extend the root class. -/
theorem supertypes_of_not_mem (h : c ∉ t.names) :
    (t.info c).interfaces = [] ∧ ∀ d ∈ (t.info c).supertypes, d = objectName := by
  have hnone : t.entries[c]? = none :=
    Option.eq_none_iff_forall_ne_some.mpr fun i hi => h (mem_names.mpr ⟨i, hi⟩)
  unfold info
  rw [hnone]
  refine ⟨rfl, ?_⟩
  simp [ClassInfo.mentioned, ClassInfo.supertypes]

theorem mem_names_set {i : ClassInfo} : c ∈ (t.set d i).names ↔ c = d ∨ c ∈ t.names := by
  unfold set
  rw [mem_names, mem_names]
  dsimp only
  rw [getElem?_insert]
  by_cases h : c = d
  · simp [h]
  · simp [h]

theorem mem_names_mentionAll (ns : List String) :
    c ∈ (t.mentionAll ns).names ↔ c ∈ ns ∨ c ∈ t.names := by
  have hmention : ∀ (t : ClassTable) (d : String), c ∈ (t.mention d).names ↔ c = d ∨
      c ∈ t.names := by
    intro t d
    unfold mention
    split_ifs with h
    · refine (or_iff_right_of_imp ?_).symm
      rintro rfl
      exact Std.TreeMap.mem_keys.mpr (Std.TreeMap.mem_iff_contains.mpr h)
    · exact mem_names_set
  unfold mentionAll
  induction ns generalizing t with
  | nil => simp
  | cons n ns ih =>
    refine ih.trans ?_
    rw [hmention, List.mem_cons, or_assoc, or_left_comm]

theorem Complete.mem_of_mem_supertypes (ht : t.Complete) (h : d ∈ (t.info c).supertypes) :
    d ∈ t.names := by
  by_cases hc : c ∈ t.names
  · exact ht.supertypes c hc d h
  · rw [(supertypes_of_not_mem hc).2 d h]
    exact ht.object

/-- A table stays complete if classes are added only, and every class has its old supertypes or
supertypes that are there. -/
theorem Complete.grow {t' : ClassTable} (ht : t.Complete) (hnames : ∀ c ∈ t.names, c ∈ t'.names)
    (hinfo : ∀ c, (t'.info c).supertypes = (t.info c).supertypes ∨
      ∀ d ∈ (t'.info c).supertypes, d ∈ t'.names) : t'.Complete where
  object := hnames _ ht.object
  supertypes := by
    intro c _ d hd
    rcases hinfo c with heq | hmem
    · exact hnames d (ht.mem_of_mem_supertypes (heq ▸ hd))
    · exact hmem d hd

theorem Complete.set {i : ClassInfo} (ht : t.Complete) (hi : i.supertypes = (t.info c).supertypes) :
    (t.set c i).Complete := by
  refine ht.grow (fun d hd => mem_names_set.mpr (Or.inr hd)) fun d => Or.inl ?_
  rw [info_set]
  split_ifs with h
  · rw [hi, h]
  · rfl

theorem Complete.declare (ht : t.Complete) (name : String) (d : ClassDecl) :
    (t.declare name d).Complete := by
  unfold ClassTable.declare
  dsimp only
  refine ht.grow (fun c hc => (mem_names_mentionAll _).mpr (Or.inr (mem_names_set.mpr (Or.inr hc))))
    fun c => ?_
  rw [info_mentionAll, info_set]
  by_cases h : c = name
  · rw [if_pos h]
    exact Or.inr fun e he => (mem_names_mentionAll _).mpr (Or.inl he)
  · rw [if_neg h]
    exact Or.inl rfl

theorem complete_initial : initial.Complete := by
  have hroot : (ClassTable.set {} objectName { super := none, declared := true }).Complete := by
    refine ⟨mem_names_set.mpr (Or.inl rfl), ?_⟩
    intro c hc d hd
    obtain rfl | hc := mem_names_set.mp hc
    · rw [info_set, if_pos rfl] at hd
      exact absurd hd List.not_mem_nil
    · simp [names] at hc
  exact (hroot.declare _ _).declare _ _

theorem Declared.complete (ht : t.Declared) : t.Complete := by
  induction ht with
  | initial => exact complete_initial
  | mention h name ih =>
    refine ih.grow (fun c hc => ?_) fun c => Or.inl (by rw [info_mention])
    exact (mem_names_mentionAll [name]).mpr (Or.inr hc)
  | declare h name d ih => exact ih.declare name d
  | addField h hok ih =>
    rcases addField_eq hok with rfl | ⟨cls, -, rfl⟩
    · exact ih
    · exact ih.set rfl
  | addMethod h hok ih =>
    rcases addMethod_eq hok with rfl | ⟨cls, -, rfl⟩
    · exact ih
    · exact ih.set rfl
  | body h hm hheader ih => exact ih.set rfl

/-! ## Supertypes -/

/-- All numbers of levels from the size of the table on give the same supertypes. -/
theorem ancestors_eq (ht : t.Complete) (hn : t.size + 1 ≤ n) :
    t.ancestors c = levels (fun c => (t.info c).supertypes) n [c] [] := by
  have hclosed : ∀ a ∈ c :: t.names, ∀ b ∈ (t.info a).supertypes, b ∈ c :: t.names :=
    fun _ _ _ hb =>
    List.mem_cons_of_mem _ (ht.mem_of_mem_supertypes hb)
  have hlen : ((c :: t.names).filter fun a => a ∉ ([] : List String)).length ≤ t.size + 1 := by
    rw [← length_names, ← List.length_cons]
    exact List.length_filter_le _ _
  refine levels_eq_levels hclosed (by simp) (Nat.le_trans hlen ?_) (Nat.le_trans hlen hn)
  unfold depth
  omega

/-- Supertypes are a matter of the direct ones. -/
theorem ancestors_congr {t' : ClassTable} (ht : t.Complete) (ht' : t'.Complete)
    (h : ∀ c, (t'.info c).supertypes = (t.info c).supertypes) (c : String) :
      t'.ancestors c = t.ancestors c := by
  have hnext : (fun c => (t'.info c).supertypes) = fun c => (t.info c).supertypes := funext h
  rw [ancestors_eq ht (Nat.le_add_right _ (t'.size + 1)),
    ancestors_eq ht' (Nat.le_add_left _ (t.size + 1)), hnext]

/-- A class comes before its supertypes. -/
def IsSupertype (t : ClassTable) (c d : String) : Prop := d ∈ (t.info c).supertypes

/-- The supertypes of a class are what links lead to. -/
theorem mem_ancestors_iff (ht : t.Complete) :
    d ∈ t.ancestors c ↔ Relation.ReflTransGen t.IsSupertype c d := by
  constructor
  · refine levels_induction (fun _ ha _ hb => ha.tail hb) (List.forall_mem_singleton.mpr .refl)
      (fun _ h => absurd h List.not_mem_nil) d
  · intro h
    induction h with
    | refl => exact mem_levels_of_mem_frontier List.mem_cons_self
    | tail _ hd ih =>
      have hclosed : ∀ a ∈ c :: t.names, ∀ b ∈ (t.info a).supertypes, b ∈ c :: t.names :=
        fun _ _ _ hb =>
        List.mem_cons_of_mem _ (ht.mem_of_mem_supertypes hb)
      refine mem_levels_of_mem_next hclosed (by simp) ?_
        (fun _ h => absurd h List.not_mem_nil) _ ih _ hd
      refine Nat.le_trans (List.length_filter_le _ _) ?_
      rw [List.length_cons, length_names]
      unfold depth
      omega

/-! ## Superclass chains -/

/-- The superclass of a class. -/
def IsSuper (t : ClassTable) (s c : String) : Prop := (t.info c).super = some s

theorem IsSuper.isSupertype (h : t.IsSuper d c) : t.IsSupertype c d :=
  List.mem_append_left _ (Option.mem_toList.mpr h)

theorem isSuper_congr {t' : ClassTable} (h : ∀ c, (t'.info c).super = (t.info c).super) :
    t'.IsSuper = t.IsSuper := by
  funext s c
  unfold IsSuper
  rw [h]

/-- No superclass chain goes on for ever. -/
def FiniteChains (t : ClassTable) : Prop := WellFounded t.IsSuper

theorem chainUpTo_of_super (h : (t.info c).super = some d) :
    t.chainUpTo (n + 1) c = c :: t.chainUpTo n d := by
  rw [chainUpTo, h]

theorem chainUpTo_of_no_super (h : (t.info c).super = none) : t.chainUpTo (n + 1) c = [c] := by
  rw [chainUpTo, h]

theorem mem_chainUpTo (h : d ∈ t.chainUpTo n c) : d = c ∨ Relation.TransGen t.IsSuper d c := by
  induction n generalizing c with
  | zero => exact absurd h List.not_mem_nil
  | succ n ih =>
    cases hs : (t.info c).super with
    | none =>
      rw [chainUpTo_of_no_super hs] at h
      exact Or.inl (List.mem_singleton.mp h)
    | some s =>
      rw [chainUpTo_of_super hs] at h
      rcases List.mem_cons.mp h with h | h
      · exact Or.inl h
      · rcases ih h with rfl | h
        · exact Or.inr (.single hs)
        · exact Or.inr (h.tail hs)

theorem chain_subset_ancestors (ht : t.Complete) : t.chain c ⊆ t.ancestors c := by
  intro d hd
  replace hd := mem_chainUpTo hd
  refine (mem_ancestors_iff ht).mpr ?_
  rcases hd with rfl | h
  · exact .refl
  · induction h with
    | single hs => exact .single hs.isSupertype
    | tail _ hs ih => exact .head hs.isSupertype ih

theorem nodup_chainUpTo (hc : Acc t.IsSuper c) : (t.chainUpTo n c).Nodup := by
  have hirrefl : ∀ {c : String}, Acc (Relation.TransGen t.IsSuper) c →
      ¬ Relation.TransGen t.IsSuper c c := by
    intro c hacc
    induction hacc with
    | intro c _ ih => exact fun hloop => ih c hloop hloop
  induction n generalizing c with
  | zero => exact List.nodup_nil
  | succ n ih =>
    cases hs : (t.info c).super with
    | none =>
      rw [chainUpTo_of_no_super hs]
      exact List.pairwise_singleton _ c
    | some s =>
      rw [chainUpTo_of_super hs]
      refine List.nodup_cons.mpr ⟨fun h => ?_, ih (hc.inv hs)⟩
      -- a class on its own chain would be its own superclass, some links up
      have hloop : Relation.TransGen t.IsSuper c c := by
        rcases mem_chainUpTo h with rfl | h
        · exact .single hs
        · exact h.tail hs
      exact hirrefl hc.transGen hloop

/-- A superclass is that of a class of the table, or the root class. -/
theorem IsSuper.mem_supers (h : t.IsSuper d c) :
    d ∈ objectName :: t.entries.values.filterMap ClassInfo.super := by
  unfold IsSuper info at h
  cases hc : t.entries[c]? with
  | none =>
    rw [hc, Option.getD_none, ClassInfo.mentioned] at h
    dsimp only at h
    split_ifs at h
    exact Option.some.inj h ▸ List.mem_cons_self
  | some i =>
    rw [hc, Option.getD_some] at h
    exact List.mem_cons_of_mem _ (List.mem_filterMap.mpr ⟨i, mem_values.mpr ⟨c, hc⟩, h⟩)

theorem chainUpTo_subset : t.chainUpTo n c ⊆
    c :: objectName :: t.entries.values.filterMap ClassInfo.super := by
  intro d h
  rcases mem_chainUpTo h with rfl | h
  · exact List.mem_cons_self
  · obtain ⟨e, he, -⟩ := Relation.TransGen.head'_iff.mp h
    exact List.mem_cons_of_mem _ he.mem_supers

theorem length_chainUpTo_le (hc : Acc t.IsSuper c) : (t.chainUpTo n c).length ≤ t.size + 2 := by
  have hle := (List.subperm_of_subset (nodup_chainUpTo (n := n) hc) chainUpTo_subset).length_le
  refine Nat.le_trans hle (Nat.succ_le_succ (Nat.succ_le_succ ?_))
  refine Nat.le_trans (List.length_filterMap_le _ _) (Nat.le_of_eq ?_)
  rw [values_eq_map_toList, List.length_map, Std.TreeMap.length_toList, size]

/-- A chain that is shorter than it may be has come to its end. -/
theorem chainUpTo_eq_of_length_lt {n' : Nat} (h : (t.chainUpTo n c).length < n) (hn : n ≤ n') :
    t.chainUpTo n' c = t.chainUpTo n c := by
  induction n generalizing n' c with
  | zero => exact absurd h (Nat.not_lt_zero _)
  | succ n ih =>
    obtain ⟨n', rfl⟩ : ∃ k, n' = k + 1 := ⟨n' - 1, by omega⟩
    cases hs : (t.info c).super with
    | none => rw [chainUpTo_of_no_super hs, chainUpTo_of_no_super hs]
    | some s =>
      rw [chainUpTo_of_super hs, List.length_cons] at h
      rw [chainUpTo_of_super hs, chainUpTo_of_super hs, ih (by omega) (by omega)]

/-- All numbers of links from the size of the table on give the same chain, if it is finite. -/
theorem chain_eq (hc : Acc t.IsSuper c) (hn : t.depth ≤ n) : t.chain c = t.chainUpTo n c :=
  (chainUpTo_eq_of_length_lt (Nat.lt_succ_of_le (length_chainUpTo_le hc)) hn).symm

theorem chain_eq_cons (hc : Acc t.IsSuper c) :
    t.chain c = c :: (t.info c).super.elim [] t.chain := by
  rw [chain_eq hc (Nat.le_succ t.depth)]
  cases hs : (t.info c).super with
  | none => exact chainUpTo_of_no_super hs
  | some s => exact chainUpTo_of_super hs

theorem mem_chain_iff (hc : Acc t.IsSuper c) :
    d ∈ t.chain c ↔ Relation.ReflTransGen t.IsSuper d c := by
  constructor
  · intro h
    exact Relation.reflTransGen_iff_eq_or_transGen.mpr ((mem_chainUpTo h).imp Eq.symm id)
  · intro h
    induction h with
    | refl => exact List.mem_cons_self
    | @tail s c _ hs ih =>
      have hsuper : (t.info c).super = some s := hs
      rw [chain_eq_cons hc, hsuper]
      exact List.mem_cons_of_mem _ (ih (hc.inv hs))

theorem acc_of_length_lt (h : (t.chainUpTo n c).length < n) : Acc t.IsSuper c := by
  induction n generalizing c with
  | zero => exact absurd h (Nat.not_lt_zero _)
  | succ n ih =>
    refine Acc.intro c fun s hs => ih ?_
    rw [chainUpTo_of_super hs, List.length_cons] at h
    exact Nat.lt_of_succ_lt_succ h

/-- Whether a superclass chain is finite can be found out by following it. -/
theorem isEndless_iff : t.isEndless c = true ↔ ¬ Acc t.IsSuper c := by
  rw [isEndless, decide_eq_true_iff]
  constructor
  · intro hle hc
    exact Nat.not_succ_le_self _ (Nat.le_trans hle (length_chainUpTo_le hc))
  · exact fun hc => Nat.le_of_not_lt fun hlt => hc (acc_of_length_lt hlt)

theorem isEndless_congr {t' : ClassTable} (h : ∀ c, (t'.info c).super = (t.info c).super)
    (c : String) : t'.isEndless c = t.isEndless c := by
  rw [Bool.eq_iff_iff, isEndless_iff, isEndless_iff, isSuper_congr h]

theorem isEndless_eq_false (hc : Acc t.IsSuper c) : t.isEndless c = false :=
  Bool.eq_false_iff.mpr fun h => isEndless_iff.mp h hc

theorem finiteChains_iff (ht : t.Complete) :
    t.FiniteChains ↔ ∀ c ∈ t.names, t.isEndless c = false := by
  constructor
  · exact fun hf c _ => isEndless_eq_false (hf.apply c)
  · intro h
    have hacc : ∀ c ∈ t.names, Acc t.IsSuper c := fun c hc => by
      by_contra hno
      exact Bool.false_ne_true ((h c hc).symm.trans (isEndless_iff.mpr hno))
    refine ⟨fun c => ?_⟩
    by_cases hc : c ∈ t.names
    · exact hacc c hc
    · exact Acc.intro c fun s hs => hacc s (ht.mem_of_mem_supertypes hs.isSupertype)

/-! ## Superinterfaces -/

/-- All numbers of levels from the size of the table on give the same superinterfaces. -/
theorem superinterfaces_eq (ht : t.Complete) (hn : t.size ≤ n) :
    t.superinterfaces c = levels (fun c => (t.info c).interfaces) n
      ((t.chain c).flatMap fun c => (t.info c).interfaces) [] := by
  have hmem : ∀ {a b}, b ∈ (t.info a).interfaces → b ∈ t.names := fun hb =>
    ht.mem_of_mem_supertypes (List.mem_append_right _ hb)
  have hlen : (t.names.filter fun a => a ∉ ([] : List String)).length ≤ t.size := by
    rw [← length_names]
    exact List.length_filter_le _ _
  refine levels_eq_levels (fun _ _ _ => hmem) ?_ (Nat.le_trans hlen ?_) (Nat.le_trans hlen hn)
  · intro b hb
    obtain ⟨a, -, hb⟩ := List.mem_flatMap.mp hb
    exact hmem hb
  · unfold depth
    omega

theorem superinterfaces_subset_ancestors (ht : t.Complete) :
    t.superinterfaces c ⊆ t.ancestors c := by
  have hstep : ∀ {a b}, a ∈ t.ancestors c → b ∈ (t.info a).interfaces → b ∈ t.ancestors c := by
    intro a b ha hb
    exact (mem_ancestors_iff ht).mpr (((mem_ancestors_iff ht).mp ha).tail
      (List.mem_append_right _ hb))
  refine levels_induction (fun _ ha _ hb => hstep ha hb) (fun b hb => ?_)
    (fun _ h => absurd h List.not_mem_nil)
  obtain ⟨a, ha, hb⟩ := List.mem_flatMap.mp hb
  exact hstep (chain_subset_ancestors ht ha) hb

end ClassTable

end PointsTo
