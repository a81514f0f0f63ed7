/-
LayerFlow.Layer.SoftMax

The soft maximum along the channels at every position.
-/
import LayerFlow.Kernel

namespace LayerFlow

/-- A soft maximum. -/
structure SoftMax where
  kind : SoftMaxKind
deriving DecidableEq

namespace SoftMax

/-- The name of the layer. -/
def name (l : SoftMax) : String := l.kind.name

/-- The kernel of the layer. -/
def kernelKind (l : SoftMax) : KernelKind := .softMax l.kind

end SoftMax

end LayerFlow
