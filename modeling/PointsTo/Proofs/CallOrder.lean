import Mathlib.Data.Prod.Lex
import Mathlib.Order.Defs.Unbundled
import PointsTo.Proofs.Loading
import PointsTo.Proofs.Sorted
import PointsTo.Report

/-!
# The order of call sites and call edges

1. Call sites come in the lexicographic order of the methods around them and of their texts
   (`SiteKey.lt_iff`, `pairwise_sortSites`).
2. Call edges are compared by their sites, and those of one site by their callees. This is a strict
   order, but sites that are different may have the same place, and then it need not be a weak one:
   an edge of the second site is neither before nor after any edge of the first, and edges of the
   first are before each other. It is a weak order exactly if no site with callees of several
   signatures shares its place with another site (`isStrictWeakOrder_iff`).
3. So the sorted edges are always in the order of their sites, and the edges of a site that has a
   place of its own are in the order of their callees (`sortedEdges_ordered`). Two calls with the
   same text are enough to get the callees out of order (`exists_unordered_twins`).
-/

namespace PointsTo

namespace CallGraph

variable {σ μ : Type}

/-! ## Call sites -/

namespace SiteKey

variable {a b : SiteKey}

/-- The place of a call site, as a pair in lexicographic order. -/
def rank (k : SiteKey) : String ×ₗ String := toLex (k.parent, k.text)

theorem rank_inj : a.rank = b.rank ↔ a = b := by
  obtain ⟨p, t⟩ := a
  obtain ⟨p', t'⟩ := b
  simp [rank]

theorem lt_iff : a.lt b = true ↔ a.rank < b.rank := by
  rw [rank, rank, Prod.Lex.toLex_lt_toLex, lt]
  split_ifs with h
  · simp [h]
  · simp [h]

theorem not_lt_iff : (!b.lt a) = true ↔ a.rank ≤ b.rank := by
  rw [Bool.not_eq_true', Bool.eq_false_iff, ne_eq, lt_iff, not_lt]

end SiteKey

theorem sortSites_eq_sortWith (key : σ → SiteKey) (ss : List σ) :
    sortSites key ss = Text.sortWith (fun a b => !(key b).lt (key a)) ss :=
  Text.map_snd_sortWith key (fun a b => !b.lt a) ss

theorem sortSites_perm (key : σ → SiteKey) (ss : List σ) : (sortSites key ss).Perm ss := by
  rw [sortSites_eq_sortWith]
  exact Text.sortWith_perm _ ss

theorem pairwise_sortSites (key : σ → SiteKey) (ss : List σ) :
    (sortSites key ss).Pairwise fun s s' => (key s).rank ≤ (key s').rank := by
  rw [sortSites_eq_sortWith]
  exact Text.pairwise_sortWith (fun s => (key s).rank) (fun _ _ => SiteKey.not_lt_iff) ss

/-! ## Call edges -/

section Edges

variable [DecidableEq σ] {key : σ → SiteKey} {signature : μ → String} {a b c : CallEdge σ μ}

theorem edgeLt_of_eq (h : a.site = b.site) :
    edgeLt key signature a b = true ↔ signature a.callee < signature b.callee := by
  rw [edgeLt, if_pos h, decide_eq_true_iff]

theorem edgeLt_of_ne (h : a.site ≠ b.site) :
    edgeLt key signature a b = true ↔ (key a.site).rank < (key b.site).rank := by
  rw [edgeLt, if_neg h, SiteKey.lt_iff]

theorem rank_le_of_edgeLt (h : edgeLt key signature a b = true) :
    (key a.site).rank ≤ (key b.site).rank := by
  by_cases hab : a.site = b.site
  · rw [hab]
  · exact ((edgeLt_of_ne hab).mp h).le

theorem rank_le_of_not_edgeLt (h : ¬ edgeLt key signature b a = true) :
    (key a.site).rank ≤ (key b.site).rank := by
  by_cases hba : b.site = a.site
  · rw [hba]
  · exact not_lt.mp (mt (edgeLt_of_ne hba).mpr h)

theorem not_edgeLt_self (a : CallEdge σ μ) : ¬ edgeLt key signature a a = true := by
  rw [edgeLt_of_eq rfl]
  exact lt_irrefl _

theorem edgeLt_trans (hab : edgeLt key signature a b = true)
    (hbc : edgeLt key signature b c = true) :
    edgeLt key signature a c = true := by
  by_cases hac : a.site = c.site
  · -- going to another site and back would lead upwards both times
    have hsites : a.site = b.site := by
      by_contra hne
      have hlt := (edgeLt_of_ne hne).mp hab
      have hle := rank_le_of_edgeLt hbc
      rw [← hac] at hle
      exact absurd hle (not_le.mpr hlt)
    rw [edgeLt_of_eq hsites] at hab
    rw [edgeLt_of_eq (hsites ▸ hac)] at hbc
    exact (edgeLt_of_eq hac).mpr (hab.trans hbc)
  · rw [edgeLt_of_ne hac]
    by_cases hsites : a.site = b.site
    · rw [hsites] at hac ⊢
      exact (edgeLt_of_ne hac).mp hbc
    · exact ((edgeLt_of_ne hsites).mp hab).trans_le (rank_le_of_edgeLt hbc)

/-- Edges are not told apart by the order if their sites have the same place and, in case of one
site, their callees the same signature. -/
theorem not_edgeLt_iff : (¬ edgeLt key signature a b = true ∧ ¬ edgeLt key signature b a = true) ↔
    key a.site = key b.site ∧ (a.site = b.site → signature a.callee = signature b.callee) := by
  by_cases hab : a.site = b.site
  · rw [edgeLt_of_eq hab, edgeLt_of_eq hab.symm, not_lt, not_lt, ← le_antisymm_iff, eq_comm]
    simp [hab]
  · rw [edgeLt_of_ne hab, edgeLt_of_ne (Ne.symm hab), not_lt, not_lt, ← le_antisymm_iff,
      SiteKey.rank_inj, eq_comm]
    simp [hab]

/-- A site that shares its place with another one has callees of one signature only. -/
def Separates (key : σ → SiteKey) (signature : μ → String) (g : CallGraph σ μ) : Prop :=
  ∀ a ∈ g.edges, ∀ b ∈ g.edges, ∀ c ∈ g.edges, a.site = c.site → b.site ≠ a.site →
    key b.site = key a.site →
    signature a.callee = signature c.callee

instance (g : CallGraph σ μ) : Decidable (g.Separates key signature) := by
  unfold Separates
  infer_instance

variable {g : CallGraph σ μ}

theorem isStrictWeakOrder_iff :
    IsStrictWeakOrder {e // e ∈ g.edges} (fun a b => edgeLt key signature a.1 b.1 = true) ↔
      g.Separates key signature := by
  constructor
  · intro hweak a ha b hb c hc hac hne hkey
    have hab : ¬ edgeLt key signature a b = true ∧ ¬ edgeLt key signature b a = true :=
      not_edgeLt_iff.mpr ⟨hkey.symm, fun h => absurd h.symm hne⟩
    have hbc : ¬ edgeLt key signature b c = true ∧ ¬ edgeLt key signature c b = true :=
      not_edgeLt_iff.mpr ⟨hac ▸ hkey, fun h => absurd (h.trans hac.symm) hne⟩
    exact (not_edgeLt_iff.mp (hweak.incomp_trans ⟨a, ha⟩ ⟨b, hb⟩ ⟨c, hc⟩ hab hbc)).2 hac
  · intro hsep
    have hstrict : IsStrictOrder {e // e ∈ g.edges}
        (fun a b => edgeLt key signature a.1 b.1 = true) :=
      { irrefl := fun a => not_edgeLt_self a.1, trans := fun _ _ _ => edgeLt_trans }
    refine ⟨fun a b c hab hbc => ?_⟩
    obtain ⟨hkab, hab⟩ := not_edgeLt_iff.mp hab
    obtain ⟨hkbc, hbc⟩ := not_edgeLt_iff.mp hbc
    refine not_edgeLt_iff.mpr ⟨hkab.trans hkbc, fun hac => ?_⟩
    by_cases hsites : b.1.site = a.1.site
    · exact (hab hsites.symm).trans (hbc (hsites.trans hac))
    · exact hsep a.1 a.2 b.1 b.2 c.1 c.2 hac hsites hkab.symm

/-! ## Sorted edges -/

theorem sortedEdges_perm (key : σ → SiteKey) (signature : μ → String) (g : CallGraph σ μ) :
    (g.sortedEdges key signature).Perm g.edges := Text.sortWith_perm _ _

/-- No edge comes right after one that it should come before. -/
theorem isChain_sortedEdges (key : σ → SiteKey) (signature : μ → String) (g : CallGraph σ μ) :
    (g.sortedEdges key signature).IsChain fun a b => ¬ edgeLt key signature b a = true := by
  refine (Text.isChain_sortWith (fun a b => ?_) g.edges).imp fun a b h => by simpa using h
  by_cases hba : edgeLt key signature b a = true
  · have hab : ¬ edgeLt key signature a b = true :=
      fun hab => not_edgeLt_self a (edgeLt_trans hab hba)
    exact Or.inr (by simpa using hab)
  · exact Or.inl (by simpa using hba)

theorem pairwise_rank_sortedEdges (key : σ → SiteKey) (signature : μ → String) (g : CallGraph σ μ) :
    (g.sortedEdges key signature).Pairwise fun a b => (key a.site).rank ≤ (key b.site).rank := by
  have htrans : IsTrans (CallEdge σ μ) fun a b => (key a.site).rank ≤ (key b.site).rank :=
    ⟨fun _ _ _ => le_trans⟩
  rw [← List.isChain_iff_pairwise]
  exact (isChain_sortedEdges key signature g).imp fun _ _ => rank_le_of_not_edgeLt

/-- The edges of a site with a place of its own are in the order of their callees. -/
theorem pairwise_callee_sortedEdges {s : σ} (hs : ∀ e ∈ g.edges, key e.site = key s → e.site = s) :
    (g.sortedEdges key signature).Pairwise fun a b =>
      a.site = s → b.site = s → signature a.callee ≤ signature b.callee := by
  -- edges in the place of `s` are ranked by their callees as well, others are not
  let place (e : CallEdge σ μ) : (String ×ₗ String) ×ₗ String :=
    toLex ((key e.site).rank, if key e.site = key s then signature e.callee else "")
  have htrans : IsTrans (CallEdge σ μ) fun a b => place a ≤ place b := ⟨fun _ _ _ => le_trans⟩
  have hchain : (g.sortedEdges key signature).IsChain fun a b => place a ≤ place b := by
    refine (List.IsChain.iff_mem.mp (isChain_sortedEdges key signature g)).imp ?_
    rintro a b ⟨ha, hb, hba⟩
    rw [Prod.Lex.toLex_le_toLex]
    rcases (rank_le_of_not_edgeLt hba).lt_or_eq with hlt | heq
    · exact Or.inl hlt
    refine Or.inr ⟨heq, ?_⟩
    have hkey : key a.site = key b.site := SiteKey.rank_inj.mp heq
    by_cases hkeys : key a.site = key s
    · have hsites : b.site = a.site := by
        rw [hs a ((sortedEdges_perm key signature g).subset ha) hkeys,
          hs b ((sortedEdges_perm key signature g).subset hb) (hkey ▸ hkeys)]
      simpa [hkeys, hkey ▸ hkeys] using not_lt.mp (mt (edgeLt_of_eq hsites).mpr hba)
    · simp [hkeys, hkey ▸ hkeys]
  refine (List.isChain_iff_pairwise.mp hchain).imp fun {a b} hab hsa hsb => ?_
  simpa [place, hsa, hsb, Prod.Lex.toLex_le_toLex] using hab

/-- If no site with callees of several signatures shares its place with another one, no edge comes
before one that it should come after. -/
theorem Separates.pairwise_sortedEdges (hsep : g.Separates key signature) :
    (g.sortedEdges key signature).Pairwise fun a b => ¬ edgeLt key signature b a = true := by
  rw [List.pairwise_iff_forall_sublist]
  intro a b hab
  have hmem : ∀ e ∈ [a, b], e ∈ g.edges :=
    fun e he => (sortedEdges_perm key signature g).subset (hab.subset he)
  have ha : a ∈ g.edges := hmem a (by simp)
  have hb : b ∈ g.edges := hmem b (by simp)
  by_cases hsites : b.site = a.site
  · rw [edgeLt_of_eq hsites, not_lt]
    by_cases halone : ∀ e ∈ g.edges, key e.site = key a.site → e.site = a.site
    · exact List.pairwise_iff_forall_sublist.mp (pairwise_callee_sortedEdges halone) hab rfl hsites
    · simp only [not_forall, exists_prop] at halone
      obtain ⟨e, he, hkey, hne⟩ := halone
      exact (hsep a ha e he b hb hsites.symm hne hkey).le
  · rw [edgeLt_of_ne hsites, not_lt]
    exact List.pairwise_iff_forall_sublist.mp (pairwise_rank_sortedEdges key signature g) hab

/-- Edges are compared by a strict order, which is a weak order exactly if no site with callees of
several signatures shares its place with another site. Sorting rearranges the edges such that their
sites are in order, and the edges of a site with a place of its own are in the order of their
callees. If the order is a weak one, all edges are in order. -/
theorem sortedEdges_ordered (key : σ → SiteKey) (signature : μ → String) (g : CallGraph σ μ) :
    IsStrictOrder (CallEdge σ μ) (fun a b => edgeLt key signature a b = true) ∧
    (IsStrictWeakOrder {e // e ∈ g.edges} (fun a b => edgeLt key signature a.1 b.1 = true) ↔
      g.Separates key signature) ∧
    (g.sortedEdges key signature).Perm g.edges ∧
    ((g.sortedEdges key signature).Pairwise fun a b => ¬ (key b.site).lt (key a.site) = true) ∧
    (∀ s, (∀ e ∈ g.edges, key e.site = key s → e.site = s) →
      ((g.sortedEdges key signature).filter fun e => e.site = s).Pairwise fun a b =>
        signature a.callee ≤ signature b.callee) ∧
    (g.Separates key signature →
      (g.sortedEdges key signature).Pairwise fun a b => ¬ edgeLt key signature b a = true) := by
  refine ⟨{ irrefl := not_edgeLt_self, trans := fun _ _ _ => edgeLt_trans }, isStrictWeakOrder_iff,
    sortedEdges_perm key signature g, ?_, fun s hs => ?_, Separates.pairwise_sortedEdges⟩
  · refine (pairwise_rank_sortedEdges key signature g).imp fun {a b} hab => ?_
    rwa [SiteKey.lt_iff, not_lt]
  · rw [List.pairwise_filter]
    exact (pairwise_callee_sortedEdges hs).imp fun {a b} hab ha hb => hab (by simpa using ha)
      (by simpa using hb)

end Edges

end CallGraph

/-! ## Calls with the same text -/

namespace Program

open CallGraph Description

/-- A variable holds objects of a class and of its superclass, and a method of theirs is called
twice. The second call may be given a text of its own. -/
def twins (text : String) : Description where
  entries := ["<Main: void main()>"]
  classes := [
    ⟨"A", "", [], false, false, [], [⟨"void run()", [], false, false, false, [], []⟩]⟩,
    ⟨"B", "A", [], false, false, [], [⟨"void run()", [], false, false, false, [], []⟩]⟩,
    ⟨"Main", "", [], false, false, [],
      [⟨"void main()", [], true, false, false, [("x", "A")], [
        { blank with op := "new", lhs := "x", type := "B" },
        { blank with op := "new", lhs := "x", type := "A" },
        { blank with op := "invoke", recv := "x", method := "<A: void run()>" },
        { blank with op := "invoke", recv := "x", method := "<A: void run()>", text := text }]⟩]⟩]

/-- The program that `twins` describes. -/
def twinsProgram (text : String) : Program := (twins text).build.toOption.getD {}

/-- The result of its analysis. -/
def twinsResult (text : String) : Result :=
  ((twinsProgram text).analyze {}).outcome.toOption.getD (.ofSolver (.start {} []))

/-- Calls with different texts are in order. -/
theorem sortedEdges_ordered_twins :
    (twinsResult "again").calls.Separates Stmt.siteKey MethodId.signature ∧
    ((twinsResult "again").callEdges.Pairwise
      fun a b => ¬ edgeLt Stmt.siteKey MethodId.signature b a = true) ∧
    (twinsResult "again").callEdges.map (fun e => (e.site.id.serial, e.callee.cls)) =
      [(3, "A"), (3, "B"), (2, "A"), (2, "B")] := by
  have hsep : (twinsResult "again").calls.Separates Stmt.siteKey MethodId.signature := by
    decide +kernel
  exact ⟨hsep, (sortedEdges_ordered _ _ (twinsResult "again").calls).2.2.2.2.2 hsep, by
    decide +kernel⟩

/-- The calls of the main method of `twins`. -/
def twinsCalls (text : String) : List Stmt :=
  ((twinsProgram text).method? ⟨"Main", "void main()"⟩).elim [] Method.calls

/-- Both calls get an edge to the method of `B`, and then the first call gets one to the method of
`A`. -/
def twinsCrossed : CallGraph Stmt MethodId :=
  match twinsCalls "" with
  | [first, second] =>
    let g := (({} : CallGraph Stmt MethodId).addEdge first ⟨"B", "void run()"⟩ .virtual).2
    ((g.addEdge second ⟨"B", "void run()"⟩ .virtual).2.addEdge first ⟨"A", "void run()"⟩ .virtual).2
  | _ => {}

/-- If two calls have the same text, the edges of one call need not be in the order of their
callees. Analyses find such edges. -/
theorem exists_unordered_twins :
    (twinsCrossed.sortedEdges Stmt.siteKey MethodId.signature).map
        (fun e => (e.site.id.serial, e.callee.cls)) =
      [(2, "B"), (3, "B"), (2, "A")] ∧
    (twins "").build = .ok (twinsProgram "") ∧
    ((twinsProgram "").analyze {}).outcome = .ok (twinsResult "") ∧
    (twinsResult "").callEdges.map (fun e => (e.site.id.serial, e.callee.cls)) =
      [(2, "B"), (3, "B"), (2, "A"), (3, "A")] ∧
    ∀ g ∈ [twinsCrossed, (twinsResult "").calls],
      ¬ IsStrictWeakOrder {e // e ∈ g.edges}
        (fun a b => edgeLt Stmt.siteKey MethodId.signature a.1 b.1 = true) ∧
      ∃ s, ¬ ((g.sortedEdges Stmt.siteKey MethodId.signature).filter fun e => e.site = s).Pairwise
        fun a b =>
        a.callee.signature ≤ b.callee.signature := by
  refine ⟨by decide +kernel, eq_ok_of_isSome (by decide +kernel) {},
    eq_ok_of_isSome (by decide +kernel) _,
    by decide +kernel, fun g hg => ⟨?_, ?_⟩⟩
  · have hshared : ∀ g ∈ [twinsCrossed, (twinsResult "").calls],
        ¬ g.Separates Stmt.siteKey MethodId.signature := by
      decide +kernel
    rw [isStrictWeakOrder_iff]
    exact hshared g hg
  · have hlisted : ∀ g ∈ [twinsCrossed, (twinsResult "").calls], ∃ e ∈ g.edges,
        ¬ ((g.sortedEdges Stmt.siteKey MethodId.signature).filter fun x => x.site = e.site).Pairwise
          fun a b =>
          a.callee.signature ≤ b.callee.signature := by decide +kernel
    obtain ⟨e, -, he⟩ := hlisted g hg
    exact ⟨e.site, he⟩

end Program

end PointsTo
