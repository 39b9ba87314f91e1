import Mathlib.Data.Nat.Find
import PointsTo.Proofs.Reach

/-!
# The nearest field of a name

A way through a graph says at each node which of the successors comes next. A breadth-first search
meets nodes in the order of the first ways that lead to them: shorter ways come first, and ways of
the same length in lexicographic order.

1. `probe` finds what the first way of a given length leads to (`probe_eq_some_iff`), without
   leaving out nodes that were met.
2. A walk by levels leaves them out and finds the same: below a node that was met there is nothing
   to find that would not have been found before (`findSome?_levels`).
3. So the field of a name that is found for a type is the one at the end of the first way to a type
   that declares one, and if none is found then no way leads to one
   (`ClassTable.fieldByName_nearest`).
-/

namespace PointsTo

/-! ## Ways -/

section Ways

variable {α β : Type} (next : α → List α)

/-- The node at the end of a way, which takes the successors at the given positions. -/
def follow : α → List Nat → Option α
  | a, [] => some a
  | a, i :: w => ((next a)[i]?).bind fun b => follow b w

/-- What is found at the end of the first way of a given length at whose end something is found. -/
def probe (find : α → Option β) : Nat → α → Option β
  | 0, a => find a
  | k + 1, a => (next a).findSome? (probe find k)

variable {next} {find : α → Option β} {k : Nat} {a b : α} {f : β}

theorem follow_cons {i : Nat} {w : List Nat} :
    follow next a (i :: w) = some b ↔ ∃ c, (next a)[i]? = some c ∧ follow next c w = some b := by
  rw [follow, Option.bind_eq_some_iff]

/-- What links lead to is what is at the end of a way. -/
theorem reflTransGen_iff_follow :
    Relation.ReflTransGen (fun a b => b ∈ next a) a b ↔ ∃ w, follow next a w = some b := by
  constructor
  · intro h
    induction h using Relation.ReflTransGen.head_induction_on with
    | refl => exact ⟨[], rfl⟩
    | head hstep _ ih =>
      obtain ⟨i, hi⟩ := List.mem_iff_getElem?.mp hstep
      obtain ⟨w, hw⟩ := ih
      exact ⟨i :: w, follow_cons.mpr ⟨_, hi, hw⟩⟩
  · rintro ⟨w, hw⟩
    induction w generalizing a with
    | nil =>
      obtain rfl := Option.some.inj hw
      exact .refl
    | cons i w ih =>
      obtain ⟨c, hc, hw⟩ := follow_cons.mp hw
      exact .head (List.mem_of_getElem? hc) (ih hw)

theorem probe_eq_none_iff :
    probe next find k a = none ↔ ∀ w b, w.length = k → follow next a w = some b →
      find b = none := by
  induction k generalizing a with
  | zero =>
    refine ⟨fun h w b hlen hw => ?_, fun h => h [] a rfl rfl⟩
    obtain rfl := List.length_eq_zero_iff.mp hlen
    exact Option.some.inj hw ▸ h
  | succ k ih =>
    rw [probe, List.findSome?_eq_none_iff]
    constructor
    · intro h w b hlen hw
      obtain ⟨i, w, rfl⟩ := List.exists_cons_of_length_eq_add_one hlen
      obtain ⟨c, hc, hw⟩ := follow_cons.mp hw
      exact ih.mp (h c (List.mem_of_getElem? hc)) w b (Nat.succ.inj hlen) hw
    · intro h c hc
      obtain ⟨i, hi⟩ := List.mem_iff_getElem?.mp hc
      exact ih.mpr fun w b hlen hw => h (i :: w) b (by rw [List.length_cons, hlen])
        (follow_cons.mpr ⟨c, hi, hw⟩)

/-- What `probe` finds is at the end of the first of the ways that have something at their ends. -/
theorem probe_eq_some_iff :
    probe next find k a = some f ↔ ∃ w, w.length = k ∧
      (∃ b, follow next a w = some b ∧ find b = some f) ∧
      ∀ w' b, w'.length = k → w' < w → follow next a w' = some b → find b = none := by
  induction k generalizing a with
  | zero => simp [probe, follow]
  | succ k ih =>
    rw [probe, List.findSome?_eq_some_iff]
    constructor
    · rintro ⟨before, c, after, hsplit, hc, hbefore⟩
      obtain ⟨w, hlen, ⟨b, hw, hb⟩, hfirst⟩ := ih.mp hc
      have hpos : (next a)[before.length]? = some c := by simp [hsplit]
      refine ⟨before.length :: w, by rw [List.length_cons, hlen],
        ⟨b, follow_cons.mpr ⟨c, hpos, hw⟩, hb⟩, ?_⟩
      intro w' b' hlen' hlt hw'
      obtain ⟨i, w', rfl⟩ := List.exists_cons_of_length_eq_add_one hlen'
      obtain ⟨c', hc', hw'⟩ := follow_cons.mp hw'
      rcases List.cons_lt_cons_iff.mp hlt with hi | ⟨rfl, hrest⟩
      · rw [hsplit, List.getElem?_append_left hi] at hc'
        exact probe_eq_none_iff.mp (hbefore c' (List.mem_of_getElem? hc')) w' b'
          (Nat.succ.inj hlen') hw'
      · obtain rfl := Option.some.inj (hpos.symm.trans hc')
        exact hfirst w' b' (Nat.succ.inj hlen') hrest hw'
    · rintro ⟨w, hlen, ⟨b, hw, hb⟩, hfirst⟩
      obtain ⟨i, w, rfl⟩ := List.exists_cons_of_length_eq_add_one hlen
      obtain ⟨c, hc, hw⟩ := follow_cons.mp hw
      obtain ⟨hi, rfl⟩ := List.getElem?_eq_some_iff.mp hc
      refine ⟨(next a).take i, (next a)[i], (next a).drop (i + 1), by simp, ih.mpr ?_,
        fun x hx => ?_⟩
      · refine ⟨w, Nat.succ.inj hlen, ⟨b, hw, hb⟩, fun w' b' hlen' hlt hw' => ?_⟩
        exact hfirst (i :: w') b' (by rw [List.length_cons, hlen'])
          (List.cons_lt_cons_iff.mpr (.inr ⟨rfl, hlt⟩))
          (follow_cons.mpr ⟨_, hc, hw'⟩)
      · obtain ⟨j, hj⟩ := List.mem_iff_getElem?.mp hx
        rw [List.getElem?_take] at hj
        split_ifs at hj with hji
        refine probe_eq_none_iff.mpr fun w' b' hlen' hw' => ?_
        exact hfirst (j :: w') b' (by rw [List.length_cons, hlen'])
          (List.cons_lt_cons_iff.mpr (.inl hji))
          (follow_cons.mpr ⟨x, hj, hw'⟩)

end Ways

/-! ## Walks that leave out what was met -/

section Levels

variable {α β : Type} {next : α → List α} {find : α → Option β} {f : β}

theorem findSome?_filter {p : α → Bool} {l : List α} (h : ∀ a ∈ l, ¬ p a = true → find a = none) :
    (l.filter p).findSome? find = l.findSome? find := by
  induction l with
  | nil => rfl
  | cons a l ih =>
    obtain ⟨ha, hl⟩ := List.forall_mem_cons.mp h
    by_cases hp : p a = true
    · rw [List.filter_cons_of_pos hp, List.findSome?_cons, List.findSome?_cons, ih hl]
    · rw [List.filter_cons_of_neg hp, List.findSome?_cons, ha hp, ih hl]

theorem findSome?_flatMap (l : List α) (g : α → List α) :
    (l.flatMap g).findSome? find = l.findSome? fun a => (g a).findSome? find := by
  induction l with
  | nil => rfl
  | cons a l ih =>
    rw [List.flatMap_cons, List.findSome?_append, ih, List.findSome?_cons]
    cases (g a).findSome? find <;> rfl

/-- From nodes that were met, ways that are not longer than `k` find nothing if those from the
frontier that are shorter than `k` do not. -/
theorem probe_eq_none_of_mem_seen {k : Nat} {frontier seen : List α}
    (hseen : ∀ a ∈ seen, find a = none)
    (hclosed : ∀ a ∈ seen, ∀ b ∈ next a, b ∈ seen ∨ b ∈ frontier)
    (hfrontier : ∀ j < k, ∀ a ∈ frontier, probe next find j a = none) :
    ∀ i ≤ k, ∀ a ∈ seen, probe next find i a = none := by
  intro i
  induction i with
  | zero => exact fun _ => hseen
  | succ i ih =>
    intro hi a ha
    rw [probe, List.findSome?_eq_none_iff]
    intro b hb
    rcases hclosed a ha b hb with hb | hb
    · exact ih (by omega) b hb
    · exact hfrontier i hi b hb

variable [DecidableEq α]

theorem findSome?_eraseDups (l : List α) : l.eraseDups.findSome? find = l.findSome? find := by
  cases l with
  | nil => rfl
  | cons a l =>
    rw [List.eraseDups_cons, List.findSome?_cons, List.findSome?_cons, findSome?_eraseDups]
    cases ha : find a with
    | some f => rfl
    | none =>
      refine findSome?_filter fun b _ hb => ?_
      obtain rfl : b = a := by simpa using hb
      exact ha
termination_by l.length
decreasing_by exact Nat.lt_succ_of_le (List.length_filter_le _ _)

/-- Nothing is missed by leaving out nodes that were met without finding anything. -/
theorem findSome?_fresh {frontier seen : List α} (h : ∀ a ∈ seen, find a = none) :
    (frontier.filter fun a => a ∉ seen).eraseDups.findSome? find = frontier.findSome? find := by
  rw [findSome?_eraseDups]
  exact findSome?_filter fun a _ ha => h a (by simpa using ha)

theorem levels_succ (next : α → List α) (n : Nat) (frontier seen : List α) :
    levels next (n + 1) frontier seen =
      levels next n ((frontier.filter fun a => a ∉ seen).eraseDups.flatMap next)
        (seen ++ (frontier.filter fun a => a ∉ seen).eraseDups) := by
  rw [levels]
  split_ifs with hempty
  · rw [List.isEmpty_iff.mp hempty, List.append_nil, levels_of_subset (by simp)]
  · rfl

/-- A walk goes on from what was met. -/
theorem prefix_levels (next : α → List α) (n : Nat) :
    ∀ frontier seen : List α, seen <+: levels next n frontier seen := by
  induction n with
  | zero => exact fun _ seen => List.prefix_refl seen
  | succ n ih =>
    intro frontier seen
    rw [levels_succ]
    exact (List.prefix_append _ _).trans (ih _ _)

/-- A walk by levels finds what the first way from the frontier leads to. -/
theorem findSome?_levels {n : Nat} :
    ∀ {k : Nat} {frontier seen : List α}, k < n → (∀ a ∈ seen, find a = none) →
    (∀ a ∈ seen, ∀ b ∈ next a, b ∈ seen ∨ b ∈ frontier) →
    (∀ j < k, frontier.findSome? (probe next find j) = none) →
      frontier.findSome? (probe next find k) = some f →
    (levels next n frontier seen).findSome? find = some f := by
  induction n with
  | zero => exact fun hk => absurd hk (Nat.not_lt_zero _)
  | succ n ih =>
    intro k frontier seen hk hseen hclosed hshorter hfound
    rw [levels_succ]
    have hnone : ∀ i ≤ k, ∀ a ∈ seen, probe next find i a = none :=
      probe_eq_none_of_mem_seen hseen hclosed fun j hj => List.findSome?_eq_none_iff.mp
        (hshorter j hj)
    have hfresh : ∀ i ≤ k, (frontier.filter fun a => a ∉ seen).eraseDups.findSome?
        (probe next find i) =
        frontier.findSome? (probe next find i) := fun i hi => findSome?_fresh (hnone i hi)
    have hmem : ∀ {a}, a ∈ (frontier.filter fun a => a ∉ seen).eraseDups ↔ a ∈ frontier ∧
        a ∉ seen := mem_fresh
    generalize (frontier.filter fun a => a ∉ seen).eraseDups = fresh at hfresh hmem ⊢
    cases k with
    | zero =>
      -- what is found in this level stays in front
      have hlevel : fresh.findSome? find = some f := (hfresh 0 (Nat.le_refl 0)).trans hfound
      obtain ⟨rest, hrest⟩ := prefix_levels next n (fresh.flatMap next) (seen ++ fresh)
      rw [← hrest, List.findSome?_append, List.findSome?_append,
        List.findSome?_eq_none_iff.mpr hseen, hlevel]
      rfl
    | succ k =>
      refine ih (Nat.lt_of_succ_lt_succ hk) ?_ ?_ (fun j hj => ?_) ?_
      · refine List.forall_mem_append.mpr ⟨hseen, fun a ha => ?_⟩
        exact List.findSome?_eq_none_iff.mp (hshorter 0 (Nat.zero_lt_succ k)) a (hmem.mp ha).1
      · intro a ha b hb
        rw [List.mem_append] at ha ⊢
        rcases ha with ha | ha
        · refine Or.inl ((hclosed a ha b hb).elim Or.inl fun hfrontier => ?_)
          exact or_iff_not_imp_left.mpr fun hs => hmem.mpr ⟨hfrontier, hs⟩
        · exact Or.inr (List.mem_flatMap.mpr ⟨a, ha, hb⟩)
      · rw [findSome?_flatMap]
        exact (hfresh (j + 1) (by omega)).trans (hshorter (j + 1) (by omega))
      · rw [findSome?_flatMap]
        exact (hfresh (k + 1) (Nat.le_refl _)).trans hfound

end Levels

/-! ## Fields of supertypes -/

namespace ClassTable

variable {t : ClassTable} {type : Ty} {name : String} {f : Field} {k : Nat}

/-- The direct supertypes of a type: the superclass, then the interfaces in the order of their
declaration. Only classes and interfaces have any. -/
def supertypesOf (t : ClassTable) : Ty → List Ty
  | .cls c => (t.info c).supertypes.map .cls
  | _ => []

/-- The field of a name that a type itself declares. -/
def fieldOn? (t : ClassTable) (name : String) : Ty → Option Field
  | .cls c => t.field? c name
  | _ => none

/-- The way through direct supertypes leads to a type that declares the field. No way to a type with
a field of this name has fewer links, or the same number of links and comes before it. -/
structure FirstWay (t : ClassTable) (type : Ty) (name : String) (w : List Nat) (f : Field) :
    Prop where
  leads : ∃ a, follow t.supertypesOf type w = some a ∧ t.fieldOn? name a = some f
  nearest : ∀ w' a, follow t.supertypesOf type w' = some a → t.fieldOn? name a ≠ none →
    w.length ≤ w'.length
  first : ∀ w' a, follow t.supertypesOf type w' = some a → t.fieldOn? name a ≠ none →
    w'.length = w.length → ¬ w' < w

theorem exists_firstWay_iff : (∃ w, t.FirstWay type name w f) ↔
    ∃ k, probe t.supertypesOf (t.fieldOn? name) k type = some f ∧
      ∀ j < k, probe t.supertypesOf (t.fieldOn? name) j type = none := by
  constructor
  · rintro ⟨w, hleads, hnearest, hfirst⟩
    refine ⟨w.length, probe_eq_some_iff.mpr ⟨w, rfl, hleads, fun w' a hlen hlt hw' => ?_⟩,
      fun j hj => ?_⟩
    · by_contra ha
      exact hfirst w' a hw' ha hlen hlt
    · refine probe_eq_none_iff.mpr fun w' a hlen hw' => ?_
      by_contra ha
      have hle := hnearest w' a hw' ha
      omega
  · rintro ⟨k, hk, hless⟩
    obtain ⟨w, rfl, hleads, hfirst⟩ := probe_eq_some_iff.mp hk
    refine ⟨w, hleads, fun w' a hw' ha => ?_,
      fun w' a hw' ha hlen hlt => ha (hfirst w' a hlen hlt hw')⟩
    by_contra hlt
    exact ha (probe_eq_none_iff.mp (hless w'.length (Nat.not_le.mp hlt)) w' a rfl hw')

theorem probe_cls (c : String) : probe t.supertypesOf (t.fieldOn? name) k (.cls c) =
    probe (fun c => (t.info c).supertypes) (fun c => t.field? c name) k c := by
  induction k generalizing c with
  | zero => rfl
  | succ k ih =>
    rw [probe, probe, supertypesOf, List.findSome?_map]
    exact congrArg (fun g => List.findSome? g _) (funext ih)

theorem probe_eq_none_of_not_cls (h : ∀ c, type ≠ .cls c) (k : Nat) :
    probe t.supertypesOf (t.fieldOn? name) k type = none := by
  cases type with
  | cls c => exact absurd rfl (h c)
  | _ => cases k <;> rfl

theorem fieldByName_of_probe (ht : t.Complete)
    (hk : probe t.supertypesOf (t.fieldOn? name) k type = some f)
    (hless : ∀ j < k, probe t.supertypesOf (t.fieldOn? name) j type = none) : t.fieldByName type
      name = some f := by
  by_cases htype : ∃ c, type = .cls c
  · obtain ⟨c, rfl⟩ := htype
    simp only [probe_cls] at hk hless
    rw [fieldByName, ancestors_eq ht (Nat.le_add_right (t.size + 1) (k + 1))]
    exact findSome?_levels (k := k) (by omega) (by simp) (by simp) (by simpa using hless)
      (by simpa using hk)
  · rw [probe_eq_none_of_not_cls fun c hc => htype ⟨c, hc⟩] at hk
    cases hk

theorem exists_way_of_fieldByName (ht : t.Complete) (h : t.fieldByName type name = some f) :
    ∃ w a, follow t.supertypesOf type w = some a ∧ t.fieldOn? name a = some f := by
  cases type with
  | cls c =>
    obtain ⟨d, hd, hf⟩ := List.exists_of_findSome?_eq_some h
    have hlinks : Relation.ReflTransGen (fun a b => b ∈ t.supertypesOf a) (.cls c) (.cls d) :=
      ((mem_ancestors_iff ht).mp hd).lift Ty.cls fun _ _ hb => List.mem_map_of_mem hb
    obtain ⟨w, hw⟩ := reflTransGen_iff_follow.mp hlinks
    exact ⟨w, .cls d, hw, hf⟩
  | _ => cases h

/-- Where a way leads to a field, a first way does, and its field is found. -/
theorem exists_firstWay_of_follow (ht : t.Complete) {w : List Nat} {a : Ty}
    (hw : follow t.supertypesOf type w = some a) (ha : t.fieldOn? name a ≠ none) :
    ∃ w' f, t.FirstWay type name w' f ∧ t.fieldByName type name = some f := by
  classical
  have hex : ∃ k, probe t.supertypesOf (t.fieldOn? name) k type ≠ none :=
    ⟨w.length, fun h => ha (probe_eq_none_iff.mp h w a rfl hw)⟩
  have hless : ∀ j < Nat.find hex, probe t.supertypesOf (t.fieldOn? name) j type = none :=
    fun j hj =>
    not_not.mp (Nat.find_min hex hj)
  obtain ⟨f, hf⟩ := Option.ne_none_iff_exists'.mp (Nat.find_spec hex)
  obtain ⟨w', hw'⟩ := exists_firstWay_iff.mpr ⟨_, hf, hless⟩
  exact ⟨w', f, hw', fieldByName_of_probe ht hf hless⟩

/-- The search for a field finds the one that is declared nearest to a type, and of several at the
same distance the one that comes first if superclasses are taken before interfaces. If it finds none
then no supertype declares one. It has come to its end: going on finds nothing else, also if
supertypes go round in circles. -/
theorem fieldByName_nearest (ht : t.Declared) (type : Ty) (name : String) :
    (t.fieldByName type name = none ↔
      ∀ a, Relation.ReflTransGen (fun a b => b ∈ t.supertypesOf a) type a →
        t.fieldOn? name a = none) ∧
    (∀ f, t.fieldByName type name = some f ↔ ∃ w, t.FirstWay type name w f) ∧
    ∀ c n, type = .cls c → t.size + 1 ≤ n →
      (levels (fun c => (t.info c).supertypes) n [c] []).findSome? (fun c => t.field? c name) =
        t.fieldByName type name := by
  refine ⟨⟨fun hnone a hlinks => ?_, fun hnone => ?_⟩, fun f => ⟨fun hf => ?_, fun hway => ?_⟩, ?_⟩
  · by_contra ha
    obtain ⟨w, hw⟩ := reflTransGen_iff_follow.mp hlinks
    obtain ⟨w', f, -, hf⟩ := exists_firstWay_of_follow ht.complete hw ha
    rw [hnone] at hf
    cases hf
  · refine Option.eq_none_iff_forall_ne_some.mpr fun f hf => ?_
    obtain ⟨w, a, hw, ha⟩ := exists_way_of_fieldByName ht.complete hf
    rw [hnone a (reflTransGen_iff_follow.mpr ⟨w, hw⟩)] at ha
    cases ha
  · obtain ⟨w, a, hw, ha⟩ := exists_way_of_fieldByName ht.complete hf
    obtain ⟨w', f', hway, hf'⟩ :=
      exists_firstWay_of_follow ht.complete hw (Option.ne_none_iff_exists'.mpr ⟨f, ha⟩)
    obtain rfl := Option.some.inj (hf.symm.trans hf')
    exact ⟨w', hway⟩
  · obtain ⟨k, hk, hless⟩ := exists_firstWay_iff.mp hway
    exact fieldByName_of_probe ht.complete hk hless
  · rintro c n rfl hn
    rw [fieldByName, ancestors_eq ht.complete hn]

/-- The table with one more field, if it can be declared. -/
def withField (t : ClassTable) (cls name : String) : ClassTable :=
  ((t.addField (.cls cls) name none false).map Prod.snd).toOption.getD t

theorem Declared.withField (ht : t.Declared) (cls name : String) :
    (t.withField cls name).Declared := by
  unfold ClassTable.withField
  cases hok : t.addField (.cls cls) name none false with
  | error e => exact ht
  | ok r => exact ht.addField hok

/-- A lamp is a device, and devices and parts extend each other. A lamp is also a light, and lights
are sources, so there are two links from lamps to parts and to sources. -/
def lamps : ClassTable :=
  let t :=
    (ClassTable.initial.declare "Device" { super := "Part" }).declare "Part" { super := "Device" }
  let t := (t.declare "Light" { interface := true, interfaces := ["Source"] }).declare "Source"
    { interface := true }
  (((t.declare "Lamp" { super := "Device", interfaces := ["Light"] }).withField "Source"
    "power").withField "Source"
    "size").withField "Part" "size"

theorem declared_lamps : lamps.Declared := by
  have hparts :=
    (Declared.initial.declare "Device" { super := "Part" }).declare "Part" { super := "Device" }
  have hlights :=
    (hparts.declare "Light" { interface := true, interfaces := ["Source"] }).declare "Source"
    { interface := true }
  exact (((hlights.declare _ _).withField _ _).withField _ _).withField _ _

/-- A lamp has the size of a part, which is met before the size of a source. -/
theorem fieldByName_nearest_lamps :
    (∃ w, lamps.FirstWay (.cls "Lamp") "power" w ⟨"Source", "power", none, false⟩) ∧
    (∃ w, lamps.FirstWay (.cls "Lamp") "size" w ⟨"Part", "size", none, false⟩) ∧
    ∀ a, Relation.ReflTransGen (fun a b => b ∈ lamps.supertypesOf a) (.cls "Lamp") a →
      lamps.fieldOn? "price" a = none := by
  refine ⟨?_, ?_, ?_⟩
  · exact ((fieldByName_nearest declared_lamps (.cls "Lamp") "power").2.1 _).mp (by decide +kernel)
  · exact ((fieldByName_nearest declared_lamps (.cls "Lamp") "size").2.1 _).mp (by decide +kernel)
  · exact (fieldByName_nearest declared_lamps (.cls "Lamp") "price").1.mp (by decide +kernel)

end ClassTable

end PointsTo
