/-
LayerFlow.Fusion

Where the channels of several sources lie once a backend has stacked them.  The backend pads
every source to a multiple of the alignment; the contraction, a convolution with one position
and fixed weights, selects the real channels out of the padded stack again.

Main statements: `layout_cons`, the channels of a source lie side by side from where the
padded sources before it end, and `length_locations`, every channel has one place.
-/
import LayerFlow.Kernel

namespace LayerFlow

/-- The alignment of current hardware. -/
def hardwareAlignment : Nat := 4

/-- The next multiple of the alignment. -/
def alignUp (value alignment : Nat) : Except Failure Nat :=
  Size.mul ((value + alignment - 1) / alignment) alignment

/-- The places of the channels of stacked sources, from an offset on, and where the padded stack
ends. -/
def layout (alignment : Nat) : (counts : List Nat) → (offset : Nat) →
    Except Failure (List Nat × Nat)
  | [], offset => .ok ([], offset)
  | count :: counts, offset => do
    let stop ← Size.add offset count
    let next ← alignUp stop alignment
    let (places, total) ← layout alignment counts next
    return (List.range' offset count ++ places, total)

/-- The plan of a fusion: the channels of each source, the place of each real channel in the
padded stack, and the size of that stack. -/
structure FusionPlan where
  channelCounts : List Nat
  locations : List Nat
  paddedTotal : Nat
deriving DecidableEq

namespace FusionPlan

/-- Plans a fusion with a given alignment.  There is one place for each real channel; that there is
memory for them is taken for granted. -/
def withAlignment (counts : List Nat) (alignment : Nat) : Except Failure FusionPlan :=
  if counts.isEmpty then .error (.noInputs "fusion")
  else if alignment = 0 then .error (.badConfig .zeroFusionAlignment)
  else do
    let _ ← Size.sum counts
    let (locations, total) ← layout alignment counts 0
    return ⟨counts, locations, total⟩

/-- Plans a fusion with the alignment of current hardware. -/
def ofCounts (counts : List Nat) : Except Failure FusionPlan :=
  withAlignment counts hardwareAlignment

/-- The number of sources. -/
def sourceCount (plan : FusionPlan) : Nat := plan.channelCounts.length

/-- The number of real channels. -/
def logicalTotal (plan : FusionPlan) : Nat := plan.locations.length

/-- The place of a real channel. -/
def location? (plan : FusionPlan) (channel : Nat) : Option Nat := plan.locations[channel]?

/-- The row of the selection matrix that picks one place. -/
def selector (width place : Nat) : List Binary32 :=
  (List.range width).map fun column => if column = place then .one else .zero

/-- The rows of the selection matrix, one for each real channel. -/
def weightRows (plan : FusionPlan) : List (List Binary32) :=
  plan.locations.map (selector plan.paddedTotal)

/-- Writes a one for each place, in the rows from `row` on of a matrix that is stored row by
row. -/
def fillOnes (width : Nat) : (row : Nat) → (places : List Nat) → (entries : Array Binary32) →
    Array Binary32
  | _, [], entries => entries
  | row, place :: places, entries =>
    fillOnes width (row + 1) places (entries.setIfInBounds (row * width + place) .one)

/-- The selection matrix, stored row by row: zeros, and in the row of each channel a one at its
place.  The size of the matrix has to fit, and so do the indices, which are smaller; that there is
memory for it is taken for granted. -/
def weights (plan : FusionPlan) : Except Failure (List Binary32) := do
  let size ← Size.mul plan.logicalTotal plan.paddedTotal
  return (fillOnes plan.paddedTotal 0 plan.locations (Array.replicate size .zero)).toList

/-- The contraction over an area. -/
def contraction (plan : FusionPlan) (area : Shape) : Except Failure Kernel := do
  let weights ← plan.weights
  return {
    label := "Contraction"
    kind := .convolution .standard (1, 1) (1, 1) plan.paddedTotal plan.logicalTotal false
      (some weights)
    input := ⟨area.width, area.height, Extent.ofSize plan.paddedTotal, 1⟩
    output := ⟨area.width, area.height, Extent.ofSize plan.logicalTotal, 1⟩ }

end FusionPlan

/-! ## Laws -/

/-- A result of `layout` for a list with a first source, taken apart. -/
theorem layout_cons {alignment count : Nat} {counts : List Nat} {offset : Nat}
    {places : List Nat} {total : Nat}
    (h : layout alignment (count :: counts) offset = .ok (places, total)) :
    ∃ next rest, alignUp (offset + count) alignment = .ok next ∧
      layout alignment counts next = .ok (rest, total) ∧
      places = List.range' offset count ++ rest := by
  rw [layout] at h
  -- A step that overflows leaves no layout, so each of the three steps has a result.
  rcases hstop : Size.add offset count with e | stop
  · rw [hstop] at h
    cases h
  obtain ⟨-, rfl⟩ := Size.check_eq_ok_iff.mp hstop
  rw [hstop] at h
  rcases hnext : alignUp (offset + count) alignment with e | next
  · simp only [bind, Except.bind, hnext] at h
    cases h
  rcases hrest : layout alignment counts next with e | ⟨rest, t⟩
  · simp only [bind, Except.bind, hnext, hrest] at h
    cases h
  simp only [bind, Except.bind, hnext, hrest, pure, Except.pure, Except.ok.injEq,
    Prod.mk.injEq] at h
  obtain ⟨rfl, rfl⟩ := h
  exact ⟨next, rest, rfl, hrest, rfl⟩

/-- Every channel of every source has one place. -/
theorem length_locations {alignment : Nat} {counts : List Nat} {offset : Nat}
    {places : List Nat} {total : Nat} (h : layout alignment counts offset = .ok (places, total)) :
    places.length = counts.foldr (· + ·) 0 := by
  induction counts generalizing offset places with
  | nil =>
    simp only [layout, Except.ok.injEq, Prod.mk.injEq] at h
    simp [← h.1]
  | cons count counts ih =>
    obtain ⟨next, rest, -, hrest, rfl⟩ := layout_cons h
    simp [ih hrest]

end LayerFlow
