import Mathlib.Data.List.Dedup
import Mathlib.Data.List.Induction
import PointsTo.Proofs.CallGraph
import PointsTo.Proofs.CallOrder

/-!
# What was added to a call graph

Entries, reachable methods and edges are added to a call graph in any order, and edges may be added
again with other kinds. A call graph records what was added (`Records`, kept by `Records.add`): it
has an edge for each site and callee that were ever added together, once and with the kind that came
first, and its indexes agree with the edges. So callees, callers, kinds and the listings of a
result, which are read off different parts of the graph, agree with each other
(`Result.views_agree`).
-/

namespace PointsTo

namespace CallGraph

variable {σ μ : Type}

/-! ## Additions -/

/-- What may be added to a call graph. -/
inductive Addition (σ μ : Type)
  | entry (m : μ)
  | reachable (m : μ)
  | edge (s : σ) (m : μ) (kind : CallKind)

/-- The site and the callee of an edge. -/
def Addition.pair? : Addition σ μ → Option (σ × μ)
  | edge s m _ => some (s, m)
  | _ => none

/-- The first edge between a site and a callee that was added has this kind. -/
def FirstKind (as : List (Addition σ μ)) (s : σ) (m : μ) (kind : CallKind) : Prop :=
  ∃ before after, as = before ++ .edge s m kind :: after ∧ ∀ kind', .edge s m kind' ∉ before

variable {as : List (Addition σ μ)} {a : Addition σ μ} {s : σ} {m : μ} {kind : CallKind}

theorem firstKind_concat : FirstKind (as ++ [a]) s m kind ↔
    FirstKind as s m kind ∨ a = .edge s m kind ∧ ∀ kind', .edge s m kind' ∉ as := by
  constructor
  · rintro ⟨before, after, heq, hfirst⟩
    -- the edge is the last addition, or stands among the others
    rcases List.eq_nil_or_concat after with rfl | ⟨after, b, rfl⟩
    · obtain ⟨rfl, hab⟩ := List.append_inj' heq rfl
      exact Or.inr ⟨List.singleton_inj.mp hab, hfirst⟩
    · rw [List.concat_eq_append, ← List.cons_append, ← List.append_assoc] at heq
      exact Or.inl ⟨before, after, (List.append_inj' heq rfl).1, hfirst⟩
  · rintro (⟨before, after, rfl, hfirst⟩ | ⟨rfl, hfirst⟩)
    · exact ⟨before, after ++ [a], by simp, hfirst⟩
    · exact ⟨as, [], rfl, hfirst⟩

theorem exists_firstKind_iff : (∃ kind, FirstKind as s m kind) ↔ ∃ kind, .edge s m kind ∈ as := by
  constructor
  · rintro ⟨kind, before, after, rfl, -⟩
    exact ⟨kind, by simp⟩
  · intro h
    induction as using List.reverseRecOn with
    | nil => simp at h
    | append_singleton as a ih =>
      by_cases hbefore : ∃ kind, .edge s m kind ∈ as
      · obtain ⟨kind, hkind⟩ := ih hbefore
        exact ⟨kind, firstKind_concat.mpr (Or.inl hkind)⟩
      · obtain ⟨kind, hkind⟩ := h
        rcases List.mem_append.mp hkind with hkind | hkind
        · exact absurd ⟨kind, hkind⟩ hbefore
        · exact ⟨kind, firstKind_concat.mpr
            (Or.inr ⟨(List.mem_singleton.mp hkind).symm, not_exists.mp hbefore⟩)⟩

/-! ## What is recorded -/

variable [DecidableEq σ] [DecidableEq μ] {g : CallGraph σ μ}

/-- The call graph holds what was added, and its indexes agree with its edges. -/
structure Records (as : List (Addition σ μ)) (g : CallGraph σ μ) : Prop where
  reachable : ∀ m, m ∈ g.reachable ↔ .entry m ∈ as ∨ .reachable m ∈ as
  nodup_reachable : g.reachable.Nodup
  edge : ∀ e, e ∈ g.edges ↔ FirstKind as e.site e.callee e.kind
  nodup_pairs : (g.edges.map fun e => (e.site, e.callee)).Nodup
  indexed : g.Indexed

omit [DecidableEq σ] in
theorem snd_addReachable (g : CallGraph σ μ) (m : μ) : (g.addReachable m).2 =
    { g with reachable := if m ∈ g.reachable then g.reachable else g.reachable ++ [m] } := by
  by_cases h : m ∈ g.reachable
  · rw [addReachable_of_mem h, if_pos h]
  · rw [addReachable_of_not_mem h, if_neg h]

namespace Records

theorem empty : Records ([] : List (Addition σ μ)) {} where
  reachable := by simp
  nodup_reachable := List.nodup_nil
  edge := by simp [FirstKind]
  nodup_pairs := List.nodup_nil
  indexed := indexed_empty

variable (h : Records as g)

include h

/-- Edges with the same site and callee are the same. -/
theorem kind_eq {kind' : CallKind} (he : ⟨s, m, kind⟩ ∈ g.edges) (he' : ⟨s, m, kind'⟩ ∈ g.edges) :
    kind = kind' :=
  congrArg CallEdge.kind (List.inj_on_of_nodup_map h.nodup_pairs he he' rfl)

theorem edgeKind?_eq_some_iff : g.edgeKind? s m = some kind ↔ FirstKind as s m kind := by
  rw [← h.edge ⟨s, m, kind⟩]
  refine ⟨h.indexed.mem_of_edgeKind?, fun he => ?_⟩
  obtain ⟨kind', hkind'⟩ := Option.isSome_iff_exists.mp
    (h.indexed.edgeKind?_isSome_iff.mpr ⟨_, he, rfl, rfl⟩)
  rw [hkind', h.kind_eq he (h.indexed.mem_of_edgeKind? hkind')]

theorem isSome_edgeKind?_iff : (g.edgeKind? s m).isSome ↔ ∃ kind, .edge s m kind ∈ as := by
  rw [Option.isSome_iff_exists, ← exists_firstKind_iff]
  exact exists_congr fun kind => h.edgeKind?_eq_some_iff

theorem fst_addEdge_iff : (g.addEdge s m kind).1 = true ↔ ∀ kind', .edge s m kind' ∉ as := by
  rw [← not_exists, ← h.isSome_edgeKind?_iff]
  by_cases hsome : (g.edgeKind? s m).isSome
  · simp [addEdge_of_isSome hsome, hsome]
  · simp [addEdge_of_not_isSome hsome, hsome]

/-! ### Additions -/

/-- A method becomes reachable, as an entry or by itself. -/
theorem mark (ha : a = .entry m ∨ a = .reachable m) (entries : List μ) : Records (as ++ [a])
    { g with
      entries
      reachable := if m ∈ g.reachable then g.reachable else g.reachable ++ [m] } where
  reachable x := by
    rw [mem_ite_append, h.reachable]
    rcases ha with rfl | rfl <;> simp [or_assoc, or_comm, or_left_comm]
  nodup_reachable := by
    dsimp only
    split_ifs with hm
    · exact h.nodup_reachable
    · exact h.nodup_reachable.append (List.nodup_singleton m) (by simpa using hm)
  edge e := by
    rw [h.edge, firstKind_concat, or_iff_left]
    rcases ha with rfl | rfl <;> simp
  nodup_pairs := h.nodup_pairs
  indexed := h.indexed.congr rfl rfl rfl

theorem addEdge (s : σ) (m : μ) (kind : CallKind) :
    Records (as ++ [.edge s m kind]) (g.addEdge s m kind).2 := by
  have hreachable : ∀ x, x ∈ g.reachable ↔
      .entry x ∈ as ++ [.edge s m kind] ∨ .reachable x ∈ as ++ [.edge s m kind] := by
    simp [h.reachable]
  by_cases hsome : (g.edgeKind? s m).isSome
  · -- the pair came before, so the new addition is not the first one
    rw [addEdge_of_isSome hsome]
    obtain ⟨kind', hkind'⟩ := h.isSome_edgeKind?_iff.mp hsome
    refine ⟨hreachable, h.nodup_reachable, fun e => ?_, h.nodup_pairs, h.indexed⟩
    rw [h.edge, firstKind_concat, or_iff_left]
    rintro ⟨heq, hnone⟩
    obtain ⟨rfl, rfl, rfl⟩ := Addition.edge.inj heq
    exact hnone kind' hkind'
  · rw [addEdge_of_not_isSome hsome]
    refine ⟨hreachable, h.nodup_reachable, fun e => ?_, ?_, h.indexed.withEdge hsome⟩
    · rw [edges_withEdge, List.mem_append, List.mem_singleton, h.edge, firstKind_concat]
      refine or_congr_right ⟨?_, ?_⟩
      · rintro rfl
        exact ⟨rfl, fun kind' hkind' => hsome (h.isSome_edgeKind?_iff.mpr ⟨kind', hkind'⟩)⟩
      · rintro ⟨heq, -⟩
        obtain ⟨rfl, rfl, rfl⟩ := Addition.edge.inj heq
        rfl
    · rw [h.indexed.edgeKind?_isSome_iff] at hsome
      rw [edges_withEdge, List.map_append]
      refine h.nodup_pairs.append (List.nodup_singleton _) ?_
      simpa [not_exists, not_and] using hsome

end Records

/-- Makes an addition, and says whether it was new. -/
def add (g : CallGraph σ μ) : Addition σ μ → Bool × CallGraph σ μ
  | .entry m => g.addEntry m
  | .reachable m => g.addReachable m
  | .edge s m kind => g.addEdge s m kind

/-- The call graph after additions to an empty one. -/
def ofAdditions (as : List (Addition σ μ)) : CallGraph σ μ :=
  as.foldl (fun g a => (g.add a).2) {}

theorem Records.add (h : Records as g) (a : Addition σ μ) : Records (as ++ [a]) (g.add a).2 := by
  cases a with
  | entry m =>
    rw [CallGraph.add, addEntry, snd_addReachable]
    exact h.mark (Or.inl rfl) (g.entries ++ [m])
  | reachable m =>
    rw [CallGraph.add, snd_addReachable]
    exact h.mark (Or.inr rfl) g.entries
  | edge s m kind => exact h.addEdge s m kind

theorem records_ofAdditions (as : List (Addition σ μ)) : Records as (ofAdditions as) := by
  induction as using List.reverseRecOn with
  | nil => exact Records.empty
  | append_singleton as a ih =>
    rw [ofAdditions, List.foldl_append]
    exact ih.add a

/-! ## Views -/

namespace Records

variable (h : Records as g)

include h

/-- Edges that have something in common differ in the rest. -/
theorem nodup_map_filter {α : Type} {p : CallEdge σ μ → Bool} {f : CallEdge σ μ → α}
    (hpair : ∀ e e', p e → p e' → f e = f e' → (e.site, e.callee) = (e'.site, e'.callee)) :
    ((g.edges.filter p).map f).Nodup := by
  refine List.Nodup.map_on (fun e he e' he' heq => ?_) (h.nodup_pairs.of_map.filter _)
  rw [List.mem_filter] at he he'
  exact List.inj_on_of_nodup_map h.nodup_pairs he.1 he'.1 (hpair e e' he.2 he'.2 heq)

theorem nodup_sortedCallees (signature : μ → String) (s : σ) :
    (g.sortedCallees signature s).Nodup := by
  refine (Text.sortBy_perm _ _).nodup_iff.mpr ?_
  unfold callees
  rw [h.indexed.targets, List.map_map]
  refine h.nodup_map_filter fun e e' he he' heq => ?_
  rw [of_decide_eq_true he, of_decide_eq_true he']
  exact congrArg (Prod.mk s) heq

theorem nodup_sortedCallers (key : σ → SiteKey) (m : μ) : (g.sortedCallers key m).Nodup := by
  refine (sortSites_perm _ _).nodup_iff.mpr ?_
  unfold callers
  rw [h.indexed.sites]
  refine h.nodup_map_filter fun e e' he he' heq => ?_
  rw [of_decide_eq_true he, of_decide_eq_true he', heq]

theorem countP_eq_one_iff :
    g.edges.countP (fun e => e.site = s ∧ e.callee = m) = 1 ↔ (g.edgeKind? s m).isSome := by
  have hcount : g.edges.countP (fun e => e.site = s ∧ e.callee = m) =
      (g.edges.map fun e => (e.site, e.callee)).count (s, m) := by
    rw [List.count, List.countP_map]
    exact List.countP_congr fun e _ => by simp
  rw [hcount, List.Nodup.count h.nodup_pairs, h.indexed.edgeKind?_isSome_iff]
  simp

theorem mem_pairs_iff {p : σ × μ} :
    p ∈ g.edges.map (fun e => (e.site, e.callee)) ↔ p ∈ as.filterMap Addition.pair? := by
  obtain ⟨s, m⟩ := p
  have hpair : (s, m) ∈ as.filterMap Addition.pair? ↔ ∃ kind, .edge s m kind ∈ as := by
    rw [List.mem_filterMap]
    constructor
    · rintro ⟨a, ha, hp⟩
      cases a with
      | edge s' m' kind =>
        obtain ⟨rfl, rfl⟩ := Prod.mk.inj (Option.some.inj hp)
        exact ⟨kind, ha⟩
      | _ => cases hp
    · rintro ⟨kind, ha⟩
      exact ⟨_, ha, rfl⟩
  rw [hpair, ← h.isSome_edgeKind?_iff, h.indexed.edgeKind?_isSome_iff]
  simp

theorem numEdges_eq : g.numEdges = (as.filterMap Addition.pair?).dedup.length := by
  have hperm := (List.perm_ext_iff_of_nodup h.nodup_pairs (List.nodup_dedup _)).mpr fun p =>
    h.mem_pairs_iff.trans List.mem_dedup.symm
  rw [← hperm.length_eq, List.length_map, numEdges]

end Records

end CallGraph

/-! ## Listings -/

namespace Result

open CallGraph

theorem mem_calleesOf_iff {r : Result} {m : Method} {s : Stmt} {ms : List MethodId} :
    (s, ms) ∈ r.calleesOf m ↔
      s ∈ m.calls ∧ ms = r.calls.sortedCallees MethodId.signature s ∧ ms ≠ [] := by
  rw [calleesOf, List.mem_filter, List.mem_map]
  constructor
  · rintro ⟨⟨s', hs', heq⟩, hne⟩
    obtain ⟨rfl, rfl⟩ := Prod.mk.inj heq
    exact ⟨hs', rfl, by simpa using hne⟩
  · rintro ⟨hs, rfl, hne⟩
    exact ⟨⟨s, hs, rfl⟩, by simpa using hne⟩

theorem pairwise_callers (r : Result) (m : MethodId) : (r.callers m).Pairwise fun s s' =>
    s.parent.signature < s'.parent.signature ∨
      s.parent.signature = s'.parent.signature ∧ Fault.shown s.text? ≤ Fault.shown s'.text? := by
  refine (pairwise_sortSites Stmt.siteKey (r.calls.callers m)).imp fun {s s'} h => ?_
  rwa [SiteKey.rank, SiteKey.rank, Prod.Lex.toLex_le_toLex] at h

/-- The views of a call graph say the same about every site and callee, and what they say is what
was added. -/
structure ViewsAgree (as : List (Addition Stmt MethodId)) (r : Result) : Prop where
  callees_iff_callers : ∀ s m,
    m ∈ r.calls.sortedCallees MethodId.signature s ↔ s ∈ r.callers m
  callers_iff_kind : ∀ s m, s ∈ r.callers m ↔ (r.calls.edgeKind? s m).isSome
  kind_iff_edge : ∀ s m, (r.calls.edgeKind? s m).isSome ↔
    r.calls.edges.countP (fun e => e.site = s ∧ e.callee = m) = 1
  /-- An edge has the kind that it was first added with. -/
  first_edge : ∀ s m kind, ⟨s, m, kind⟩ ∈ r.calls.edges ↔ FirstKind as s m kind
  first_kind : ∀ s m kind, r.calls.edgeKind? s m = some kind ↔ FirstKind as s m kind
  /-- Another edge is new exactly if its site and callee were never added together. -/
  fresh : ∀ s m kind, (r.calls.addEdge s m kind).1 = true ↔ ∀ kind', .edge s m kind' ∉ as
  numEdges : r.calls.numEdges = (as.filterMap Addition.pair?).dedup.length
  isReachable : ∀ m, r.calls.isReachable m = true ↔ .entry m ∈ as ∨ .reachable m ∈ as
  mem_reachable : ∀ m, m ∈ r.reachable ↔ r.calls.isReachable m = true
  nodup_callees : ∀ s, (r.calls.sortedCallees MethodId.signature s).Nodup
  ordered_callees : ∀ s, (r.calls.sortedCallees MethodId.signature s).Pairwise fun m m' =>
    m.signature ≤ m'.signature
  nodup_callers : ∀ m, (r.callers m).Nodup
  /-- Callers are in the order of the methods around them, then of their texts. -/
  ordered_callers : ∀ m, (r.callers m).Pairwise fun s s' =>
    s.parent.signature < s'.parent.signature ∨
      s.parent.signature = s'.parent.signature ∧ Fault.shown s.text? ≤ Fault.shown s'.text?
  nodup_reachable : r.reachable.Nodup
  ordered_reachable : r.reachable.Pairwise fun m m' => m.signature ≤ m'.signature
  calleesOf : ∀ m s ms, (s, ms) ∈ r.calleesOf m ↔
    s ∈ m.calls ∧ ms = r.calls.sortedCallees MethodId.signature s ∧ ms ≠ []

/-- Whatever was added to a call graph, in whatever order, its views agree. -/
theorem views_agree {as : List (Addition Stmt MethodId)} {r : Result}
    (hr : r.calls = .ofAdditions as) : r.ViewsAgree as := by
  have h : Records as r.calls := hr ▸ records_ofAdditions as
  have hcallers : ∀ s m, s ∈ r.callers m ↔ (r.calls.edgeKind? s m).isSome := fun s m =>
    (sortSites_perm _ _).mem_iff.trans
      (h.indexed.mem_callers_iff.trans h.indexed.edgeKind?_isSome_iff.symm)
  exact
    { callees_iff_callers := fun s m => by
        rw [hcallers, sortedCallees, Text.mem_sortBy, mem_callees_iff_isSome]
      callers_iff_kind := hcallers
      kind_iff_edge := fun s m => h.countP_eq_one_iff.symm
      first_edge := fun s m kind => h.edge _
      first_kind := fun s m kind => h.edgeKind?_eq_some_iff
      fresh := fun s m kind => h.fst_addEdge_iff
      numEdges := h.numEdges_eq
      isReachable := fun m => by rw [CallGraph.isReachable, decide_eq_true_iff, h.reachable]
      mem_reachable := fun m => by
        rw [reachable, sortedReachable, Text.mem_sortBy, CallGraph.isReachable, decide_eq_true_iff]
      nodup_callees := h.nodup_sortedCallees _
      ordered_callees := fun s => Text.pairwise_sortBy _ _
      nodup_callers := h.nodup_sortedCallers _
      ordered_callers := pairwise_callers r
      nodup_reachable := (Text.sortBy_perm _ _).nodup_iff.mpr h.nodup_reachable
      ordered_reachable := Text.pairwise_sortBy _ _
      calleesOf := fun m s ms => mem_calleesOf_iff }

end Result

namespace Program

open CallGraph

/-- The main method is marked again and again. Each call gets an edge to the method of `A`, then the
same edge with another kind, then an edge to the method of `B`. -/
def twinsAdditions : List (Addition Stmt MethodId) :=
  [.reachable ⟨"Main", "void main()"⟩, .entry ⟨"Main", "void main()"⟩,
    .reachable ⟨"Main", "void main()"⟩] ++
    (twinsCalls "again").flatMap fun s =>
      [.edge s ⟨"A", "void run()"⟩ .virtual, .edge s ⟨"A", "void run()"⟩ .special,
        .edge s ⟨"B", "void run()"⟩ .static]

/-- The result with a call graph that holds these additions. -/
def twinsDrawn : Result := { twinsResult "again" with calls := .ofAdditions twinsAdditions }

/-- The six edges that were added are four, and kinds that came later are not seen. -/
theorem views_agree_twins : twinsDrawn.calls = .ofAdditions twinsAdditions ∧
    twinsDrawn.reachable = [⟨"Main", "void main()"⟩] ∧
    twinsDrawn.calls.numEdges = 4 ∧ (twinsAdditions.filterMap Addition.pair?).dedup.length = 4 ∧
    (twinsDrawn.callers ⟨"A", "void run()"⟩).map (fun s => s.id.serial) = [3, 2] ∧
    ∀ s ∈ twinsDrawn.callers ⟨"A", "void run()"⟩,
      FirstKind twinsAdditions s ⟨"A", "void run()"⟩ .virtual ∧
      ⟨"A", "void run()"⟩ ∈ twinsDrawn.calls.sortedCallees MethodId.signature s ∧
      twinsDrawn.calls.edges.countP (fun e => e.site = s ∧ e.callee = ⟨"A", "void run()"⟩) = 1 := by
  have hr : twinsDrawn.calls = .ofAdditions twinsAdditions := rfl
  have h := Result.views_agree hr
  have hfour : twinsDrawn.calls.numEdges = 4 := by decide +kernel
  have hkinds : ∀ s ∈ twinsDrawn.callers ⟨"A", "void run()"⟩,
      twinsDrawn.calls.edgeKind? s ⟨"A", "void run()"⟩ = some .virtual := by decide +kernel
  refine ⟨hr, by decide +kernel, hfour, h.numEdges ▸ hfour, by decide +kernel, fun s hs => ?_⟩
  exact ⟨(h.first_kind s _ _).mp (hkinds s hs), (h.callees_iff_callers s _).mpr hs,
    (h.kind_iff_edge s _).mp ((h.callers_iff_kind s _).mp hs)⟩

end Program

end PointsTo
