/-
LayerFlow.Layer.FullyConnected

The fully connected layer: its kernel spans the whole area, so width and height become one.
-/
import LayerFlow.Kernel

namespace LayerFlow

/-- A fully connected layer. -/
structure FullyConnected where
  outUnits : Nat
  bias : Bool
deriving DecidableEq

namespace FullyConnected

/-- The name of the layer. -/
def name (_l : FullyConnected) : String := "FullyConnected"

/-- The measures, as a label shows them. -/
def config (l : FullyConnected) : String := s!"units={l.outUnits}, bias={l.bias}"

/-- One position with a channel for each unit. -/
def outputShape (l : FullyConnected) (input : Shape) : Except Failure Shape :=
  if l.outUnits = 0 then .error (.shape l.name .noOutputUnits)
  else .ok ⟨1, 1, Extent.ofSize l.outUnits, input.timeSteps⟩

/-- The kernel of the layer for an input. -/
def kernelKind (l : FullyConnected) (input : Shape) : KernelKind :=
  .fullyConnected (Size.ofExtent input.width) (Size.ofExtent input.height)
    (Size.ofExtent input.channels) l.outUnits l.bias

end FullyConnected

end LayerFlow
