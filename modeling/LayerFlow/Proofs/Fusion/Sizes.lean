/-
LayerFlow.Proofs.Fusion.Sizes

When the sizes of a fusion fit the machine.  Planning a fusion and filling its selection matrix
take nothing but checked arithmetic, so they can fail in one way only; and if the matrix fits, so
does every number on the way to it, because neither side of the matrix is larger than all of it.

Main statements: `FusionPlan.exists_contraction`, the contraction of a fusion that fits, and
`FusionPlan.overflowsOnly_contraction`, how one that does not fit fails.
-/
import LayerFlow.Proofs.Fusion.Layout

namespace LayerFlow

open Traversal

/-! ## Computations that overflow at worst -/

/-- If the computation fails, then because a number leaves the range of the machine. -/
def OverflowsOnly {α : Type} (x : Except Failure α) : Prop := ∀ e, x = .error e → e = .overflow

section

variable {α β : Type}

theorem overflowsOnly_ok (a : α) : OverflowsOnly (.ok a) := by
  rintro e ⟨⟩

theorem overflowsOnly_bind {x : Except Failure α} {f : α → Except Failure β}
    (hx : OverflowsOnly x) (hf : ∀ a, OverflowsOnly (f a)) : OverflowsOnly (x >>= f) := by
  intro e h
  rcases bind_eq_error_iff.mp h with hfirst | ⟨a, -, hrest⟩
  · exact hx e hfirst
  · exact hf a e hrest

end

theorem Size.overflowsOnly_check (n : Nat) : OverflowsOnly (Size.check n) := by
  intro e h
  rw [check] at h
  split at h
  · cases h
  · exact (Except.error.inj h).symm

theorem Size.overflowsOnly_foldlM (ns : List Nat) (start : Nat) :
    OverflowsOnly (ns.foldlM Size.add start) := by
  induction ns generalizing start with
  | nil => exact overflowsOnly_ok start
  | cons n ns ih =>
    rw [List.foldlM_cons]
    exact overflowsOnly_bind (overflowsOnly_check _) ih

theorem overflowsOnly_layout (alignment : Nat) (counts : List Nat) (offset : Nat) :
    OverflowsOnly (layout alignment counts offset) := by
  induction counts generalizing offset with
  | nil => exact overflowsOnly_ok _
  | cons count counts ih =>
    refine overflowsOnly_bind (Size.overflowsOnly_check _) fun stop => ?_
    refine overflowsOnly_bind (Size.overflowsOnly_check _) fun next => ?_
    exact overflowsOnly_bind (ih next) fun _ => overflowsOnly_ok _

/-! ## Computations that fit -/

theorem Size.fits_of_le {m n : Nat} (hle : m ≤ n) (h : Size.Fits n) : Size.Fits m :=
  Nat.lt_of_le_of_lt hle h

/-- A sum that fits is found, since none of its beginnings is larger. -/
theorem Size.foldlM_add_eq_ok {ns : List Nat} {start : Nat} (h : Size.Fits (start + ns.sum)) :
    ns.foldlM Size.add start = .ok (start + ns.sum) := by
  induction ns generalizing start with
  | nil => rfl
  | cons n ns ih =>
    rw [List.sum_cons, ← Nat.add_assoc] at h ⊢
    rw [List.foldlM_cons, Size.add, check_of_fits (fits_of_le (Nat.le_add_right _ _) h)]
    exact ih h

/-- Padded sources that fit together are laid out side by side. -/
theorem exists_layout {alignment offset : Nat} {counts : List Nat} (halign : 0 < alignment)
    (hoffset : alignment ∣ offset)
    (h : Size.Fits (offset + (counts.map (paddedCount alignment)).sum)) :
    ∃ found, layout alignment counts offset = .ok found := by
  induction counts generalizing offset with
  | nil => exact ⟨_, rfl⟩
  | cons count counts ih =>
    rw [List.map_cons, List.sum_cons, ← Nat.add_assoc, ← paddedCount_add halign hoffset] at h
    -- The end of the source is not behind the place where the next one starts.
    have hnext := Size.fits_of_le (Nat.le_add_right _ _) h
    have hstop := Size.fits_of_le (le_paddedCount halign (offset + count)) hnext
    obtain ⟨rest, hrest⟩ := ih (dvd_paddedCount _ _) h
    have hadd : Size.add offset count = .ok (offset + count) := Size.check_of_fits hstop
    have halignUp : alignUp (offset + count) alignment = .ok (paddedCount alignment _) :=
      Size.check_of_fits hnext
    exact ⟨_, bind_eq_ok_iff.mpr ⟨_, hadd, bind_eq_ok_iff.mpr ⟨_, halignUp,
      bind_eq_ok_iff.mpr ⟨rest, hrest, rfl⟩⟩⟩⟩

namespace FusionPlan

variable {plan : FusionPlan} {counts : List Nat} {alignment : Nat}

/-- The selection matrix for sources with so many channels fits. -/
def Fits (alignment : Nat) (counts : List Nat) : Prop :=
  Size.Fits (counts.sum * (counts.map (paddedCount alignment)).sum)

instance : Decidable (Fits alignment counts) := inferInstanceAs (Decidable (Size.Fits _))

/-- Without channels there is nothing to pad. -/
theorem sum_paddedCount_of_sum_eq_zero (halign : 0 < alignment) (h : counts.sum = 0) :
    (counts.map (paddedCount alignment)).sum = 0 := by
  rw [List.sum_eq_zero_iff_forall_eq_nat] at h ⊢
  intro n hn
  obtain ⟨count, hcount, rfl⟩ := List.mem_map.mp hn
  rw [h count hcount, paddedCount, Nat.zero_add, Nat.div_eq_of_lt (Nat.sub_one_lt_of_lt halign),
    Nat.zero_mul]

/-- If the matrix fits, so does its longer side. -/
theorem Fits.padded (halign : 0 < alignment) (h : Fits alignment counts) :
    Size.Fits (counts.map (paddedCount alignment)).sum := by
  rcases Nat.eq_zero_or_pos counts.sum with hzero | hpos
  · rw [sum_paddedCount_of_sum_eq_zero halign hzero]
    exact Nat.two_pow_pos 64
  · exact Size.fits_of_le (Nat.le_mul_of_pos_left _ hpos) h

/-- Sources that fit together once they are padded have a plan. -/
theorem exists_plan (hne : counts ≠ []) (halign : 0 < alignment)
    (h : Size.Fits (counts.map (paddedCount alignment)).sum) :
    ∃ plan, withAlignment counts alignment = .ok plan := by
  have hsum := Size.fits_of_le (sum_le_sum_paddedCount halign counts) h
  have hcounts : Size.sum counts = .ok (0 + counts.sum) :=
    Size.foldlM_add_eq_ok (by rwa [Nat.zero_add])
  obtain ⟨found, hfound⟩ := exists_layout halign (Nat.dvd_zero alignment) (by rwa [Nat.zero_add])
  rw [withAlignment, if_neg (by simpa using hne), if_neg (Nat.ne_of_gt halign)]
  exact ⟨_, bind_eq_ok_iff.mpr ⟨_, hcounts, bind_eq_ok_iff.mpr ⟨found, hfound, rfl⟩⟩⟩

/-- A fusion that fits has a plan. -/
theorem exists_withAlignment (hne : counts ≠ []) (halign : 0 < alignment)
    (h : Fits alignment counts) : ∃ plan, withAlignment counts alignment = .ok plan :=
  exists_plan hne halign (h.padded halign)

theorem overflowsOnly_withAlignment (hne : counts ≠ []) (halign : 0 < alignment) :
    OverflowsOnly (withAlignment counts alignment) := by
  rw [withAlignment, if_neg (by simpa using hne), if_neg (Nat.ne_of_gt halign)]
  refine overflowsOnly_bind (Size.overflowsOnly_foldlM _ _) fun _ => ?_
  exact overflowsOnly_bind (overflowsOnly_layout _ _ _) fun _ => overflowsOnly_ok _

/-- The contraction of a fusion that fits. -/
theorem exists_contraction (hplan : withAlignment counts alignment = .ok plan)
    (h : Fits alignment counts) (area : Shape) : ∃ kernel, plan.contraction area = .ok kernel := by
  obtain ⟨hlogical, hpadded, -⟩ := sizes_of_withAlignment hplan
  have hfits : Size.Fits (plan.logicalTotal * plan.paddedTotal) := by
    rw [hlogical, hpadded]
    exact h
  exact ⟨_, bind_eq_ok_iff.mpr ⟨_, weights_eq_ok_iff.mpr ⟨hfits, rfl⟩, rfl⟩⟩

theorem overflowsOnly_contraction (plan : FusionPlan) (area : Shape) :
    OverflowsOnly (plan.contraction area) := by
  refine overflowsOnly_bind ?_ fun _ => overflowsOnly_ok _
  exact overflowsOnly_bind (Size.overflowsOnly_check _) fun _ => overflowsOnly_ok _

end FusionPlan

end LayerFlow
