import PointsTo.Proofs.LeastSolution

/-!
# More statements, larger results

A solution of the constraints of a program solves those of any program with the same declarations
and fewer statements and entries (`Solution.Closed.of_included`). Since results are least solutions,
the analysis is monotone, and its results depend on the sets of statements and entries only: neither
on their order nor on repetitions (`Program.analyze_monotone`).
-/

namespace PointsTo

namespace ClassTable

variable {t t' : ClassTable} {id : MethodId} {m : Method}

/-- Every statement of a method of the first table is a statement of the same method of the
second. -/
def BodiesIncluded (t t' : ClassTable) : Prop :=
  ∀ id m m', t.method? id = some m → t'.method? id = some m' → ∀ s ∈ m.body, s ∈ m'.body

theorem SameDeclarations.exists_method? (h : t.SameDeclarations t') (hm : t.method? id = some m) :
    ∃ m', t'.method? id = some m' ∧ m'.header = m.header := by
  have hmap := h.methods id
  rw [hm, Option.map_some] at hmap
  exact Option.map_eq_some_iff.mp hmap.symm

end ClassTable

namespace Solution

variable {σ : Solution} {t t' : ClassTable}

/-- A call that is connected with a method is connected with the same method when it has fewer
statements. -/
theorem Linked.of_header {c : Invocation} {recv : Option Site} {m m' : Method}
    (h : σ.Linked c recv m')
    (hheader : m'.header = m.header) (hbody : ∀ s ∈ m.body, s ∈ m'.body) : σ.Linked c recv m := by
  have hid := Method.id_eq_of_header_eq hheader
  have hreceiver : m'.header.receiver = m.header.receiver := by rw [hheader]
  have hformals : m'.header.formals = m.header.formals := by rw [hheader]
  exact {
    edge := hid ▸ h.edge
    reachable := hid ▸ h.reachable
    receiver := fun o this ho hthis => h.receiver o this ho (hreceiver.trans hthis)
    arguments := fun q hq => h.arguments q (hformals ▸ hq)
    result := fun x hx s hs => h.result x hx s (hbody s hs) }

section Included

variable (h : t.SameDeclarations t') (ht : t.Complete) (ht' : t'.Complete) (hf : t.FiniteChains)
  (hbodies : t.BodiesIncluded t')

include h ht ht' hf hbodies

theorem Obeys.of_included {i : Instr} (hi : σ.Obeys t' i) : σ.Obeys t i := by
  cases i with
  | cast x y type =>
    intro hx o ho hsub
    rw [h.isSubtype_eq ht ht'] at hsub
    exact hi hx o ho hsub
  | call c =>
    rintro recv callee hmade ⟨m, hresolve, hcallee⟩
    obtain ⟨callee', hcallee', hheader⟩ := h.exists_method? hcallee
    rw [h.resolve_eq ht ht' hf] at hresolve
    exact (hi recv callee' hmade ⟨m, hresolve, hcallee'⟩).of_header hheader
      (hbodies m callee callee' hcallee hcallee')
  | _ => exact hi

/-- What solves the constraints of a program solves those of a smaller one. -/
theorem Closed.of_included {entries entries' : List MethodId} (hσ : σ.Closed t' entries')
    (hentries : ∀ m ∈ entries, m ∈ entries') : σ.Closed t entries where
  entry m hm := hσ.entry m (hentries m hm)
  body m hm M hM s hs := by
    obtain ⟨M', hM', -⟩ := h.exists_method? hM
    obtain ⟨i, hi, hobeys⟩ := hσ.body m hm M' hM' s (hbodies m M M' hM hM' s hs)
    exact ⟨i, hi, Obeys.of_included h ht ht' hf hbodies hobeys⟩

end Included

end Solution

namespace Program

open Description

variable {p p' : Program} {c c' : AnalysisConfig} {r r' : Result}

/-- A smaller program has a smaller result. -/
theorem solution_le_of_included (hp : p.hierarchy.Steady) (hp' : p'.hierarchy.Steady)
    (hdecl : p.table.SameDeclarations p'.table) (hf : p.table.FiniteChains)
    (hret : ∀ id m, p.table.method? id = some m → m.Collected)
    (hret' : ∀ id m, p'.table.method? id = some m → m.Collected)
    (hr : (p.analyze c).outcome = .ok r) (hr' : (p'.analyze c').outcome = .ok r')
    (hbodies : p.table.BodiesIncluded p'.table) (hentries : ∀ m ∈ p.roots c, m ∈ p'.roots c') :
    r.solution ≤ r'.solution := by
  have hclosed' := closed_of_analyze (hp'.faithful (hdecl.finiteChains hf)) hret' hr'
  have hclosed :=
    hclosed'.of_included hdecl hp.declared_table.complete hp'.declared_table.complete hf hbodies
    hentries
  exact (within_of_analyze hclosed (hp.faithful hf) hret hr).1

/-- The program with the statements of a method in reverse order and then once more, and with its
entries repeated. -/
def doubled (p : Program) (m : Method) : Program where
  hierarchy :=
    { p.hierarchy with table := p.table.setMethod { m with body := m.body.reverse ++ m.body } }
  entries := p.entries ++ p.entries

section Doubled

variable {id : MethodId} {m : Method} (hp : p.hierarchy.Steady) (hm : p.table.method? id = some m)

include hp hm

/-- Methods keep their declarations, their statements and their returned variables. -/
theorem exists_method?_of_doubled {id' : MethodId} {n' : Method}
    (hn' : (p.doubled m).table.method? id' = some n') :
    ∃ n, p.table.method? id' = some n ∧ (∀ s, s ∈ n.body ↔ s ∈ n'.body) ∧
      n'.returned = n.returned := by
  have hset : (p.table.setMethod { m with body := m.body.reverse ++ m.body }).method?
      id' = some n' := hn'
  rw [ClassTable.method?_setMethod] at hset
  split_ifs at hset with hid
  · obtain rfl := Option.some.inj hset
    have hid' : id' = id := hid.trans (show m.id = id from hp.declared_table.id_eq hm)
    exact ⟨m, hid' ▸ hm, fun s => by simp, rfl⟩
  · exact ⟨n', hset, fun s => Iff.rfl, rfl⟩

theorem collected_doubled (hret : ∀ id m, p.table.method? id = some m → m.Collected)
    {id' : MethodId}
    {n' : Method} (hn' : (p.doubled m).table.method? id' = some n') : n'.Collected := by
  obtain ⟨n, hn, hbody, hreturned⟩ := exists_method?_of_doubled hp hm hn'
  intro v
  rw [hreturned, hret id' n hn v]
  simp only [hbody]

omit hp hm in
theorem mem_roots_doubled {e : MethodId} : e ∈ p.roots {} ↔ e ∈ (p.doubled m).roots {} := by
  show e ∈ p.entries.filterMap _ ↔ e ∈ (p.entries ++ p.entries).filterMap _
  rw [List.filterMap_append, List.mem_append, or_self]

end Doubled

theorem table_afterRun (p : Program) (run : AnalysisRun) : (p.afterRun run).table = p.table := by
  unfold afterRun
  split <;> rfl

theorem roots_afterRun (p : Program) (run : AnalysisRun) (c : AnalysisConfig) :
    (p.afterRun run).roots c = p.roots c := by
  unfold afterRun
  split <;> rfl

/-- The nodes that are linked by a field, once they have been analysed and their entry method
doubled. -/
def nodesDoubled : Program :=
  match nodesProgram.table.method? ⟨"Main", "void main()"⟩ with
  | some m => (nodesProgram.afterRun (nodesProgram.analyze {})).doubled m
  | none => nodesProgram

/-- The result for these nodes. -/
def nodesDoubledResult : Result := (nodesDoubled.analyze {}).outcome.toOption.getD (.ofSolver {})

/-- Monotonicity: with more statements and more entries, over the same declarations, the result has
more reachable methods, call edges and allocations at every place. Consequently statements and
entries may be put in any order and repeated: the result says the same. -/
theorem analyze_monotone (hp : p.hierarchy.Steady) (hp' : p'.hierarchy.Steady)
    (hdecl : p.table.SameDeclarations p'.table) (hf : p.table.FiniteChains)
    (hret : ∀ id m, p.table.method? id = some m → m.Collected)
    (hret' : ∀ id m, p'.table.method? id = some m → m.Collected)
    (hr : (p.analyze c).outcome = .ok r) (hr' : (p'.analyze c').outcome = .ok r') :
    (p.table.BodiesIncluded p'.table → (∀ m ∈ p.roots c, m ∈ p'.roots c') →
        r.solution ≤ r'.solution) ∧
      ((∀ id m m', p.table.method? id = some m → p'.table.method? id = some m' →
          ∀ s, s ∈ m.body ↔ s ∈ m'.body) →
        (∀ m, m ∈ p.roots c ↔ m ∈ p'.roots c') → r.solution = r'.solution) := by
  refine ⟨solution_le_of_included hp hp' hdecl hf hret hret' hr hr', fun hbodies hentries => ?_⟩
  have hle := solution_le_of_included hp hp' hdecl hf hret hret' hr hr'
    (fun id m m' hm hm' s => (hbodies id m m' hm hm' s).mp) fun m => (hentries m).mp
  have hge := solution_le_of_included hp' hp hdecl.symm (hdecl.finiteChains hf) hret' hret hr' hr
    (fun id m' m hm' hm s => (hbodies id m m' hm hm' s).mpr) fun m => (hentries m).mpr
  exact Solution.le_antisymm hle hge

theorem monotone_nodes : nodesResult.steps ≠ nodesDoubledResult.steps ∧
    nodesResult.solution ≤ nodesDoubledResult.solution ∧
    nodesResult.solution = nodesDoubledResult.solution := by
  obtain ⟨m, hm⟩ : ∃ m, nodesProgram.table.method? ⟨"Main", "void main()"⟩ = some m :=
    Option.isSome_iff_exists.mp (by decide +kernel)
  have hr' : (nodesDoubled.analyze {}).outcome = .ok nodesDoubledResult :=
    eq_ok_of_isSome (by decide +kernel) _
  have heq : nodesDoubled = (nodesProgram.afterRun (nodesProgram.analyze {})).doubled m := by
    unfold nodesDoubled
    rw [hm]
  have hp := steady_afterRun (steady_of_build build_nodes) finiteChains_nodes {}
  have htable := table_afterRun nodesProgram (nodesProgram.analyze {})
  have hm' : (nodesProgram.afterRun (nodesProgram.analyze {})).table.method?
      ⟨"Main", "void main()"⟩ = some m :=
    htable ▸ hm
  have hret : ∀ id m, nodesProgram.table.method? id = some m → m.Collected := fun id m h =>
    (added_nodes id m h).collected
  have hdecl : nodesProgram.table.SameDeclarations nodesDoubled.table := by
    rw [heq, ← htable]
    exact .setMethod hp.declared_table hm' rfl
  obtain ⟨hle, heqs⟩ := analyze_monotone (steady_of_build build_nodes) (heq ▸ hp.body hm' rfl) hdecl
    finiteChains_nodes hret
    (fun id n hn => collected_doubled hp hm' (htable ▸ hret) (heq ▸ hn)) analyze_nodes hr'
  have hbodies : ∀ id n n', nodesProgram.table.method? id = some n →
      nodesDoubled.table.method? id = some n' →
      ∀ s, s ∈ n.body ↔ s ∈ n'.body := by
    intro id n n' hn hn'
    rw [heq] at hn'
    obtain ⟨n₀, hn₀, hbody, -⟩ := exists_method?_of_doubled hp hm' hn'
    rw [htable] at hn₀
    rwa [Option.some.inj (hn.symm.trans hn₀)]
  have hroots : ∀ e, e ∈ nodesProgram.roots {} ↔ e ∈ nodesDoubled.roots {} := by
    intro e
    rw [heq, ← mem_roots_doubled, roots_afterRun]
  refine ⟨by decide +kernel, hle ?_ fun e => (hroots e).mp, heqs hbodies hroots⟩
  exact fun id n n' hn hn' s => (hbodies id n n' hn hn' s).mp

end Program

end PointsTo
