/-
LayerFlow.Layer.UpSampling

Upsampling by whole factors.
-/
import LayerFlow.Kernel

namespace LayerFlow

/-- An upsampling with its factors. -/
structure UpSampling where
  kind : UpSamplingKind
  scaleX : Nat
  scaleY : Nat
deriving DecidableEq

namespace UpSampling

/-- The name of the layer. -/
def name (l : UpSampling) : String := l.kind.name

/-- The factors, as a label shows them. -/
def config (l : UpSampling) : String := s!"scale={l.scaleX}×{l.scaleY}"

/-- Width and height grow by the factors. -/
def outputShape (l : UpSampling) (input : Shape) : Except Failure Shape :=
  if l.scaleX = 0 ∨ l.scaleY = 0 then .error (.shape l.name .zeroScale)
  else do
    let width ← Extent.mul input.width (Extent.ofSize l.scaleX)
    let height ← Extent.mul input.height (Extent.ofSize l.scaleY)
    return input.withExtent width height

/-- The kernel of the layer. -/
def kernelKind (l : UpSampling) : KernelKind := .upSampling l.kind (l.scaleX, l.scaleY)

end UpSampling

end LayerFlow
