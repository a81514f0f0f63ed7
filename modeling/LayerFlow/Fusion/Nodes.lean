/-
LayerFlow.Fusion.Nodes

The nodes of a fusion in a backend: the concatenation, the contraction after it, and on the way
back the gradient of the contraction followed by the split of the concatenation.
-/
import LayerFlow.Backend
import LayerFlow.Fusion

namespace LayerFlow

/-- The nodes appended for a fusion, kept for its gradient. -/
structure FusionNodes where
  concatenation : Handle
  contraction : Handle
  kernel : Kernel
  sourceCount : Nat
deriving DecidableEq

namespace FusionNodes

variable {β : Type} [Backend β]

/-- Equality in which numbers are compared as numbers. -/
def eqv (a b : FusionNodes) : Bool :=
  a.concatenation == b.concatenation && a.contraction == b.contraction &&
    a.kernel.eqv b.kernel && a.sourceCount == b.sourceCount

/-- Appends a kernel that has no parameter store. -/
def appendBare (kernel : Kernel) (padding : PaddingPolicy) (input : Handle) :
    Op Failure β Handle :=
  Op.zoom (fun b => (b, none)) (fun t _ => t.1)
    (Op.mapError .backend (Backend.appendForward kernel padding input))

/-- Appends the nodes of a planned fusion. -/
def append (plan : FusionPlan) (sources : List Handle) (area : Shape) :
    Op Failure β FusionNodes := do
  if sources.isEmpty then Op.fail (.noInputs "fusion")
  else if sources.length ≠ plan.sourceCount then
    Op.fail (.badSource (.fusionCount plan.sourceCount sources.length))
  else
    let concatenation ← Op.mapError .backend (Backend.appendConcatenation sources)
    let kernel ← Op.ofExcept (plan.contraction area)
    let contraction ← appendBare kernel .validOnly concatenation
    Op.say .debug (s!"fused {sources.length} sources: {plan.paddedTotal} padded channels -> " ++
      s!"{plan.logicalTotal}")
    pure ⟨concatenation, contraction, kernel, sources.length⟩

/-- Appends the gradients of a fusion, one for each source in order. -/
def appendGradients (nodes : FusionNodes) (outputGradient : Handle) :
    Op Failure β (List Handle) := do
  let contractionGradient ← Op.mapError .backend
    (Backend.appendGradient nodes.contraction nodes.kernel outputGradient)
  let gradients ← Op.mapError .backend
    (Backend.appendConcatenationGradient nodes.concatenation contractionGradient)
  if gradients.length ≠ nodes.sourceCount then
    Op.fail (.backend (.gradientCount gradients.length nodes.sourceCount))
  else pure gradients

end FusionNodes

end LayerFlow
