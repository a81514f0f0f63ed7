/-
LayerFlow.Proofs.Backend.GradientFlow

How gradients flow on a tape: each node of the backward pass takes in the gradients that it is
computed from, except for the seeds, which take in none.  The ways from a node to a seed are
counted node by node.

Main statement: `counts_node`, the ways from a node are those from the gradients it takes in.
-/
import LayerFlow.Backend.Tape
import LayerFlow.Proofs.Walks

namespace LayerFlow

/-- The gradients that a node of the backward pass takes in. -/
def Instruction.gradientSources : Instruction → List Handle
  | .gradient _ _ source => [source]
  | .concatGradient _ _ source => [source]
  | .accumulate sources => sources
  | .readInput _ | .forward _ _ _ | .concat _ | .outputGradient _ => []

/-- A node takes in a gradient as its `k`-th one. -/
def TakesIn (records : List (Handle × Instruction)) (node : Handle) (k : Nat)
    (source : Handle) : Prop :=
  ∃ instruction, (node, instruction) ∈ records ∧ instruction.gradientSources[k]? = some source

/-- The ways from a gradient to a seed along which it depends on the seed. -/
def gradientPaths (records : List (Handle × Instruction)) (gradient seed : Handle) :
    Set (List Nat) :=
  walks (TakesIn records) gradient seed

section

variable {records : List (Handle × Instruction)}

theorem eq_of_mem_records (hnodup : (records.map Prod.fst).Nodup) {node : Handle}
    {first second : Instruction} (hfirst : (node, first) ∈ records)
    (hsecond : (node, second) ∈ records) : first = second :=
  congrArg Prod.snd (List.inj_on_of_nodup_map hnodup hfirst hsecond rfl)

theorem takesIn_iff (hnodup : (records.map Prod.fst).Nodup) {node : Handle}
    {instruction : Instruction} (hnode : (node, instruction) ∈ records) {k : Nat}
    {source : Handle} :
    TakesIn records node k source ↔ instruction.gradientSources[k]? = some source := by
  constructor
  · rintro ⟨other, hother, hsource⟩
    rw [eq_of_mem_records hnodup hnode hother]
    exact hsource
  · intro hsource
    exact ⟨instruction, hnode, hsource⟩

/-- A node that takes in gradients is no seed. -/
theorem ne_seed (hnodup : (records.map Prod.fst).Nodup) {node seed output : Handle}
    {instruction : Instruction} (hnode : (node, instruction) ∈ records)
    (hsources : instruction.gradientSources ≠ [])
    (hseed : (seed, .outputGradient output) ∈ records) : node ≠ seed := by
  rintro rfl
  apply hsources
  rw [eq_of_mem_records hnodup hnode hseed]
  rfl

/-- A seed depends on itself only. -/
theorem counts_seed (hnodup : (records.map Prod.fst).Nodup) {seed output : Handle}
    (hseed : (seed, .outputGradient output) ∈ records) :
    Counts (gradientPaths records seed seed) 1 := by
  apply counts_self
  intro k source htakes
  rw [takesIn_iff hnodup hseed] at htakes
  cases htakes

/-- The ways from a node are those from the gradients that it takes in. -/
theorem counts_node (hnodup : (records.map Prod.fst).Nodup) {node seed : Handle}
    {instruction : Instruction} (hnode : (node, instruction) ∈ records) (hne : node ≠ seed)
    {counts : List Nat}
    (hcounts : List.Forall₂ (fun source n => Counts (gradientPaths records source seed) n)
      instruction.gradientSources counts) :
    Counts (gradientPaths records node seed) counts.sum := by
  -- The edges out of a node are numbered by the positions of its sources.
  have hedges : ∀ k source, TakesIn records node k source ↔
      (k, source) ∈ instruction.gradientSources.zipIdx.map Prod.swap := by
    intro k source
    rw [takesIn_iff hnodup hnode, ← List.mk_mem_zipIdx_iff_getElem?, List.mem_map]
    constructor
    · intro hmem
      exact ⟨(source, k), hmem, rfl⟩
    · rintro ⟨⟨_, _⟩, hmem, heq⟩
      cases heq
      exact hmem
  refine counts_of_edges hne hedges ?_ ?_
  · rw [List.map_map]
    show (instruction.gradientSources.zipIdx.map Prod.snd).Nodup
    rw [List.zipIdx_map_snd]
    exact List.nodup_range'
  · rw [List.forall₂_map_left_iff]
    have hfst : List.Forall₂ (fun source n => Counts (gradientPaths records source seed) n)
        (instruction.gradientSources.zipIdx.map Prod.fst) counts := by
      rw [List.zipIdx_map_fst]
      exact hcounts
    rw [List.forall₂_map_left_iff] at hfst
    exact hfst

/-- A node that takes in one gradient depends on what that gradient depends on. -/
theorem counts_single (hnodup : (records.map Prod.fst).Nodup) {node source seed output : Handle}
    {instruction : Instruction} (hnode : (node, instruction) ∈ records)
    (hsources : instruction.gradientSources = [source])
    (hseed : (seed, .outputGradient output) ∈ records) {n : Nat}
    (hcount : Counts (gradientPaths records source seed) n) :
    Counts (gradientPaths records node seed) n := by
  have hne := ne_seed hnodup hnode (by rw [hsources]; simp) hseed
  have hcounts : List.Forall₂ (fun source n => Counts (gradientPaths records source seed) n)
      instruction.gradientSources [n] := by
    rw [hsources]
    exact .cons hcount .nil
  exact counts_node hnodup hnode hne hcounts

end

end LayerFlow
