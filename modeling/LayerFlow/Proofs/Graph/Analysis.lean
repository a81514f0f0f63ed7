/-
LayerFlow.Proofs.Graph.Analysis

The analysis that a graph keeps.  What makes an analysis the right one is said in terms of the
document as it stands: which flow reads which, and the chains of such references.  A graph keeps
its analysis through builds and inferences and through edits that were refused, and forgets it
with every other edit; whenever there is one, it is right.

Main statements: `analysis_describes`, with `verify` never failing, and
`Sound.yields_verify_visited`, the analysis as a recursion finds it.
-/
import LayerFlow.Proofs.Graph.Reachable
import LayerFlow.Proofs.References.Chains
import LayerFlow.Proofs.References.Recursion

namespace LayerFlow

/-- An analysis that tells the references of a document as they are. -/
structure Analysis.Describes (a : Analysis) (g : Graph) : Prop where
  /-- There is one level for each flow. -/
  length_levels : a.levels.length = g.size
  /-- The level of a flow is the length of the longest chain of references below it. -/
  levels : ∀ id level, a.levels[id]? = some level →
    IsGreatest (References.chainLengths g.ReadsFlow id) level
  /-- Flows of one level do not depend on each other, not even through others. -/
  independent : ∀ first second level, a.levels[first]? = some level →
    a.levels[second]? = some level → ¬ Relation.TransGen g.ReadsFlow first second
  /-- The order lists every flow once. -/
  order_perm : a.order.Perm (List.range g.size)
  /-- Whatever a flow reads stands before it. -/
  reads_before : ∀ done id rest, a.order = done ++ id :: rest →
    ∀ source, g.ReadsFlow id source → source ∈ done
  /-- The order goes by level, and by id on each level. -/
  order_sorted : a.order.Pairwise fun first second =>
    ∃ low high, a.levels[first]? = some low ∧ a.levels[second]? = some high ∧
      (low < high ∨ low = high ∧ first < second)
  /-- The entry points ascend. -/
  entryPoints_sorted : a.entryPoints.Pairwise (· < ·)
  /-- The entry points are the flows that read no flow. -/
  mem_entryPoints : ∀ id, id ∈ a.entryPoints ↔
    ∃ f, g.flows[id]? = some f ∧ ∀ source, Source.flow source ∉ f.inputs
  /-- The entry points are the flows on level zero. -/
  entryPoints_level : ∀ id, id ∈ a.entryPoints ↔ a.levels[id]? = some 0
  /-- The exit points ascend. -/
  exitPoints_sorted : a.exitPoints.Pairwise (· < ·)
  /-- The exit points are the flows without consumers. -/
  mem_exitPoints : ∀ id, id ∈ a.exitPoints ↔ id < g.size ∧ g.consumers id = []

namespace Graph

/-! ## References as the document has them -/

theorem reads_references_iff {g : Graph} {reader source : Nat} :
    g.references.Reads reader source ↔ g.ReadsFlow reader source :=
  reads_iff

theorem reads_references (g : Graph) : g.references.Reads = g.ReadsFlow := by
  funext reader source
  exact propext reads_references_iff

/-- A flow that reads no other one has no flow among its sources. -/
theorem forall_not_reads_iff {g : Graph} {id : Nat} :
    (id < g.size ∧ ∀ source, ¬ g.ReadsFlow id source) ↔
      ∃ f, g.flows[id]? = some f ∧ ∀ source, Source.flow source ∉ f.inputs := by
  constructor
  · rintro ⟨hid, hnone⟩
    refine ⟨g.flows[id], List.getElem?_eq_getElem hid, fun source hmem => ?_⟩
    exact hnone source ⟨_, List.getElem?_eq_getElem hid, hmem⟩
  · rintro ⟨f, hf, hnone⟩
    refine ⟨(List.getElem?_eq_some_iff.mp hf).1, fun source hread => ?_⟩
    obtain ⟨other, hother, hmem⟩ := hread
    obtain rfl : f = other := Option.some.inj (hf.symm.trans hother)
    exact hnone source hmem

/-! ## The analysis of a sound document -/

/-- A flow has a level exactly if it exists, and then it is the level of its references. -/
theorem getElem?_levels_iff {g : Graph} {id level : Nat} :
    g.references.levels[id]? = some level ↔ id < g.size ∧ g.references.level id = level := by
  constructor
  · intro h
    have hid : id < g.references.length := by
      simpa using (List.getElem?_eq_some_iff.mp h).1
    rw [References.getElem?_levels hid] at h
    exact ⟨length_references g ▸ hid, Option.some.inj h⟩
  · rintro ⟨hid, rfl⟩
    exact References.getElem?_levels (length_references g ▸ hid)

theorem Sound.describes {g : Graph} (h : Sound g.rawInputs.length g.flows) :
    g.references.analysis.Describes g := by
  have hacyclic := h.acyclic_references
  have hrange := h.inRange_references
  have hperm := length_references g ▸ References.order_perm hacyclic hrange
  constructor
  case length_levels => exact References.length_levels.trans (length_references g)
  case levels =>
    intro id level hlevel
    obtain ⟨-, rfl⟩ := getElem?_levels_iff.mp hlevel
    rw [← reads_references]
    exact References.isGreatest_level hacyclic hrange id
  case independent =>
    intro first second level hfirst hsecond
    obtain ⟨-, hfirst⟩ := getElem?_levels_iff.mp hfirst
    obtain ⟨-, hsecond⟩ := getElem?_levels_iff.mp hsecond
    rw [← reads_references]
    exact References.not_transGen_of_level_eq hacyclic hrange (hfirst.trans hsecond.symm)
  case order_perm => exact hperm
  case reads_before =>
    intro done id rest hsplit source hread
    exact References.mem_done_of_reads hacyclic hrange hsplit (reads_references_iff.mpr hread)
  case order_sorted =>
    refine (References.order_pairwise g.references).imp_of_mem ?_
    intro first second hfirst hsecond hsorted
    -- What the order lists exists, so it has a level.
    have hlevel : ∀ id ∈ g.references.order,
        g.references.levels[id]? = some (g.references.level id) := fun id hid =>
      getElem?_levels_iff.mpr ⟨List.mem_range.mp (hperm.mem_iff.mp hid), rfl⟩
    exact ⟨_, _, hlevel first hfirst, hlevel second hsecond, hsorted⟩
  case entryPoints_sorted => exact List.pairwise_lt_range.filter _
  case mem_entryPoints =>
    intro id
    rw [← forall_not_reads_iff, ← reads_references, ← length_references]
    exact References.mem_entryPoints
  case entryPoints_level =>
    intro id
    refine References.mem_entryPoints.trans ?_
    rw [length_references, ← References.level_eq_zero_iff hacyclic hrange]
    exact getElem?_levels_iff.symm
  case exitPoints_sorted => exact List.pairwise_lt_range.filter _
  case mem_exitPoints =>
    intro id
    rw [← length_references]
    exact References.mem_exitPoints

/-- Verifying a sound document keeps what a recursion over the references, a sort of the flows and
the set of those that are read amount to. -/
theorem Sound.yields_verify_visited {g : Graph} (h : Sound g.rawInputs.length g.flows) :
    let visited := References.visitedAnalysis h.acyclic_references h.inRange_references
    Graph.verify.Yields g visited { g with analysis := some visited } := by
  intro visited
  have hvisited : g.references.analysis = visited := References.analysis_eq_visited _ _
  rw [← hvisited]
  exact h.yields_verify

/-! ## The analysis that is kept -/

/-- Whatever happened to a graph, also if it failed half-way: an analysis that is kept describes
the document as it stands, and verifying the document succeeds with an analysis that does. -/
theorem analysis_describes {g : Graph} (h : g.Reachable) :
    (∀ a, g.analysis = some a → a.Describes g) ∧
    ∃ a, Graph.verify.Yields g a { g with analysis := some a } ∧ a.Describes g := by
  have hwell := h.wellFormed
  refine ⟨fun a ha => ?_, _, hwell.sound.yields_verify, hwell.sound.describes⟩
  rw [hwell.analysis a ha]
  exact hwell.sound.describes

/-- The analysis of the shared flow, its two readers and the flow that joins them. -/
theorem analysis_describes_diamond :
    diamond.analysis = some ⟨[0], [3], [0, 1, 2, 3], [0, 1, 1, 2]⟩ ∧
    (⟨[0], [3], [0, 1, 2, 3], [0, 1, 1, 2]⟩ : Analysis).Describes diamond ∧
    ∃ a, Graph.verify.Yields diamond a { diamond with analysis := some a } ∧
      a.Describes diamond := by
  obtain ⟨hkept, hverify⟩ := analysis_describes reachable_diamond
  exact ⟨rfl, hkept _ rfl, hverify⟩

end Graph

end LayerFlow
