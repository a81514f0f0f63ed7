/-
LayerFlow.Shape

The shape of a tensor: width, height, channels and time steps.  A shape with a negative width
stands for one that is not known yet.
-/
import LayerFlow.Checked

namespace LayerFlow

/-- Width, height, channels and time steps of a tensor. -/
structure Shape where
  width : Int
  height : Int
  channels : Int
  timeSteps : Int
deriving DecidableEq, Repr

namespace Shape

/-- The shape that is not known yet. -/
def unresolved : Shape := ⟨-1, -1, -1, -1⟩

instance : Inhabited Shape := ⟨unresolved⟩

/-- Whether the shape is known; only the width tells. -/
def isResolved (s : Shape) : Bool := 0 ≤ s.width

@[simp] theorem isResolved_unresolved : unresolved.isResolved = false := rfl

/-- The four numbers in order. -/
def toList (s : Shape) : List Int := [s.width, s.height, s.channels, s.timeSteps]

/-- A known shape as its numbers with crosses between, any other as `unresolved`. -/
def render (s : Shape) : String :=
  if s.isResolved then s!"{s.width}×{s.height}×{s.channels}×{s.timeSteps}" else "unresolved"

/-- The same shape over another area. -/
def withExtent (s : Shape) (width height : Int) : Shape :=
  { s with width := width, height := height }

/-- The channels once the time steps are folded into them. -/
def stackedChannels (s : Shape) : Except Failure Int :=
  Extent.mul s.channels s.timeSteps

/-- The shape after another tensor is stacked on it along the channels; the area of the other
tensor does not matter. -/
def addChannels (s : Shape) (channels timeSteps : Int) : Except Failure Shape := do
  let more ← Extent.mul channels timeSteps
  let total ← Extent.add s.channels more
  return { s with channels := total }

/-- The number of elements; none while the shape is not known, and a tensor without time steps
counts like one with a single step. -/
def elementCount (s : Shape) : Except Failure Int :=
  if s.isResolved then do
    let area ← Extent.mul s.width s.height
    let volume ← Extent.mul area s.channels
    Extent.mul volume (max s.timeSteps 1)
  else .ok 0

end Shape

end LayerFlow
