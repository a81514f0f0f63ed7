/-
LayerFlow.Layer.DropOut

Random omission of values during training.
-/
import LayerFlow.Kernel

namespace LayerFlow

/-- A dropout layer: how likely a value is kept, and the seed of the choice. -/
structure DropOut where
  keepProbability : Binary32
  seed : Nat
deriving DecidableEq

namespace DropOut

/-- The name of the layer. -/
def name (_l : DropOut) : String := "DropOut"

/-- The probability, as a label shows it. -/
def config (l : DropOut) : String := s!"keep={l.keepProbability.text}"

/-- The shape stays, if the probability is positive and at most one. -/
def outputShape (l : DropOut) (input : Shape) : Except Failure Shape :=
  if Binary32.zero.lt l.keepProbability && l.keepProbability.le .one then .ok input
  else .error (.shape l.name (.keepProbability l.keepProbability))

/-- The kernel of the layer. -/
def kernelKind (l : DropOut) : KernelKind := .dropOut l.keepProbability l.seed

end DropOut

end LayerFlow
