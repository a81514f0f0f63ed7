/-
LayerFlow.Proofs.Fusion.Layout

The sizes of a fusion.  Every source starts at a multiple of the alignment, so the padded stack is
as long as the padded sources together, whatever their order; the contraction selects the real
channels out of it.

Main statements: `FusionPlan.sizes_of_withAlignment`, the sizes of a plan, and
`FusionPlan.contraction_eq_ok`, the kernel of its contraction.
-/
import LayerFlow.Fusion
import LayerFlow.Proofs.Traversal
import Mathlib.Algebra.GroupWithZero.Nat

namespace LayerFlow

open Traversal

/-! ## Rounding up -/

/-- The channels of a source once it is padded to a multiple of the alignment. -/
def paddedCount (alignment count : Nat) : Nat := (count + alignment - 1) / alignment * alignment

theorem le_paddedCount {alignment : Nat} (halign : 0 < alignment) (count : Nat) :
    count ≤ paddedCount alignment count := by
  have hdiv := Nat.div_add_mod (count + alignment - 1) alignment
  have hmod := Nat.mod_lt (count + alignment - 1) halign
  rw [paddedCount, Nat.mul_comm]
  omega

/-- From a multiple of the alignment on, padding does not depend on the place. -/
theorem paddedCount_add {alignment offset : Nat} (halign : 0 < alignment)
    (hoffset : alignment ∣ offset) (count : Nat) :
    paddedCount alignment (offset + count) = offset + paddedCount alignment count := by
  obtain ⟨k, rfl⟩ := hoffset
  rw [paddedCount, show alignment * k + count + alignment - 1 =
    alignment * k + (count + alignment - 1) by omega, Nat.mul_add_div halign, Nat.add_mul,
    Nat.mul_comm k, paddedCount]

theorem dvd_paddedCount (alignment count : Nat) : alignment ∣ paddedCount alignment count :=
  Nat.dvd_mul_left _ _

/-- Padding makes no source shorter, and so not all of them together. -/
theorem sum_le_sum_paddedCount {alignment : Nat} (halign : 0 < alignment) (counts : List Nat) :
    counts.sum ≤ (counts.map (paddedCount alignment)).sum := by
  induction counts with
  | nil => exact Nat.le_refl 0
  | cons count counts ih =>
    rw [List.map_cons, List.sum_cons, List.sum_cons]
    exact Nat.add_le_add (le_paddedCount halign count) ih

theorem alignUp_eq_ok {value alignment next : Nat} (h : alignUp value alignment = .ok next) :
    next = paddedCount alignment value :=
  (Size.check_eq_ok_iff.mp h).2

/-- The padded stack is as long as the padded sources together. -/
theorem layout_total {alignment offset total : Nat} {counts places : List Nat}
    (halign : 0 < alignment) (hoffset : alignment ∣ offset)
    (h : layout alignment counts offset = .ok (places, total)) :
    total = offset + (counts.map (paddedCount alignment)).sum := by
  induction counts generalizing offset places with
  | nil =>
    cases h
    rfl
  | cons count counts ih =>
    obtain ⟨next, rest, hnext, hrest, -⟩ := layout_cons h
    obtain rfl := alignUp_eq_ok hnext
    rw [ih (dvd_paddedCount _ _) hrest, paddedCount_add halign hoffset, List.map_cons,
      List.sum_cons, Nat.add_assoc]

/-! ## Plans -/

namespace FusionPlan

variable {plan : FusionPlan} {counts : List Nat} {alignment : Nat}

/-- A plan is the layout of its sources from the bottom of the stack on. -/
theorem layout_of_withAlignment (h : withAlignment counts alignment = .ok plan) :
    counts ≠ [] ∧ 0 < alignment ∧
      ∃ found total, layout alignment counts 0 = .ok (found, total) ∧
        plan = ⟨counts, found, total⟩ := by
  rw [withAlignment] at h
  split at h
  · cases h
  next hempty =>
  split at h
  · cases h
  next halign =>
  obtain ⟨_, -, hrest⟩ := bind_eq_ok_iff.mp h
  obtain ⟨⟨found, total⟩, hlayout, hplan⟩ := bind_eq_ok_iff.mp hrest
  have hne : counts ≠ [] := by simpa using hempty
  exact ⟨hne, Nat.pos_of_ne_zero halign, found, total, hlayout, pure_eq_ok_iff.mp hplan⟩

/-- The sizes of a plan. -/
theorem sizes_of_withAlignment (h : withAlignment counts alignment = .ok plan) :
    plan.logicalTotal = counts.sum ∧
      plan.paddedTotal = (counts.map (paddedCount alignment)).sum ∧ 0 < alignment := by
  obtain ⟨-, halign, found, total, hlayout, rfl⟩ := layout_of_withAlignment h
  have htotal := layout_total halign (Nat.dvd_zero alignment) hlayout
  exact ⟨length_locations hlayout, htotal.trans (Nat.zero_add _), halign⟩

/-- A plan has as many sources as there are counts. -/
theorem sourceCount_of_withAlignment (h : withAlignment counts alignment = .ok plan) :
    plan.sourceCount = counts.length := by
  obtain ⟨-, -, found, total, -, rfl⟩ := layout_of_withAlignment h
  rfl

/-- Filling a matrix keeps its size. -/
theorem size_fillOnes (width row : Nat) (places : List Nat) (entries : Array Binary32) :
    (fillOnes width row places entries).size = entries.size := by
  induction places generalizing row entries with
  | nil => rfl
  | cons place places ih => rw [fillOnes, ih, Array.size_setIfInBounds]

/-- The selection matrix is the filled one, if its size fits. -/
theorem weights_eq_ok_iff {weights : List Binary32} :
    plan.weights = .ok weights ↔ Size.Fits (plan.logicalTotal * plan.paddedTotal) ∧
      weights = (fillOnes plan.paddedTotal 0 plan.locations
        (Array.replicate (plan.logicalTotal * plan.paddedTotal) .zero)).toList := by
  constructor
  · intro h
    obtain ⟨size, hsize, hfilled⟩ := bind_eq_ok_iff.mp h
    obtain ⟨hfits, rfl⟩ := Size.check_eq_ok_iff.mp hsize
    exact ⟨hfits, pure_eq_ok_iff.mp hfilled⟩
  · rintro ⟨hfits, rfl⟩
    exact bind_eq_ok_iff.mpr ⟨_, Size.check_of_fits hfits, rfl⟩

/-- The contraction of a plan: from the padded stack to the real channels, with a weight for each
pair of them. -/
theorem contraction_eq_ok {area : Shape} {kernel : Kernel}
    (h : plan.contraction area = .ok kernel) :
    ∃ weights : List Binary32, weights.length = plan.paddedTotal * plan.logicalTotal ∧
      kernel = ⟨"Contraction", .convolution .standard (1, 1) (1, 1) plan.paddedTotal
          plan.logicalTotal false (some weights),
        ⟨area.width, area.height, Extent.ofSize plan.paddedTotal, 1⟩,
        ⟨area.width, area.height, Extent.ofSize plan.logicalTotal, 1⟩⟩ := by
  obtain ⟨weights, hweights, hkernel⟩ := bind_eq_ok_iff.mp h
  obtain ⟨-, rfl⟩ := weights_eq_ok_iff.mp hweights
  refine ⟨_, ?_, pure_eq_ok_iff.mp hkernel⟩
  rw [Array.length_toList, size_fillOnes, Array.size_replicate, Nat.mul_comm]

end FusionPlan

end LayerFlow
