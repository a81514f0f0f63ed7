/-
LayerFlow.Backend

What flows are built against: a library that appends nodes to a tensor graph and hands out
handles for them.  Flows never run a kernel; they only ask for nodes and pass handles back.
-/
import LayerFlow.Kernel
import LayerFlow.Outcome
import LayerFlow.Padding
import LayerFlow.ParamStore

namespace LayerFlow

/-- A node of a backend's graph; only the backend knows what it stands for. -/
structure Handle where
  index : Nat
deriving DecidableEq, Repr

/-- A backend with states in `β`. -/
class Backend (β : Type) where
  /-- Appends a kernel after a node.  A parameter store that comes along belongs to the state:
  the backend may fill its buffers, whether it appends the node or refuses it. -/
  appendForward (kernel : Kernel) (padding : PaddingPolicy) (input : Handle) :
    Op BackendFault (β × Option ParamStore) Handle
  /-- Appends the gradient of the kernel that made a forward node. -/
  appendGradient (forward : Handle) (kernel : Kernel) (outputGradient : Handle) :
    Op BackendFault β Handle
  /-- Stacks nodes along the channels, each padded to the alignment of the hardware. -/
  appendConcatenation (inputs : List Handle) : Op BackendFault β Handle
  /-- Splits the gradient of a concatenation into one for each of its inputs, in their order. -/
  appendConcatenationGradient (concatenation outputGradient : Handle) :
    Op BackendFault β (List Handle)
  /-- Appends the gradient that the loss sends into an output that nothing else reads. -/
  appendOutputGradient (output : Handle) : Op BackendFault β Handle
  /-- Appends the sum of the gradients that reach one node from several readers. -/
  appendAccumulation (gradients : List Handle) : Op BackendFault β Handle

end LayerFlow
