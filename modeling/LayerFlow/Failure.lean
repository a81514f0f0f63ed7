/-
LayerFlow.Failure

Why an operation on a graph of flows fails.  Every failure is a cause with its data; the
wording is given once, by `Failure.message`.

Main statement: `inFlow_inFlow`, placing a failure in a flow twice nests the two labels.
-/
import LayerFlow.Axis
import LayerFlow.Binary32.Shortest

namespace LayerFlow

/-! ## Parts of a failure -/

/-- How far a flow has been built. -/
inductive Stage where
  | unbuilt
  | dimensionsInferred
  | forwardBuilt
  | backwardBuilt
deriving DecidableEq, Repr

/-- The name of a stage. -/
def Stage.name : Stage → String
  | .unbuilt => "Unbuilt"
  | .dimensionsInferred => "DimensionsInferred"
  | .forwardBuilt => "ForwardBuilt"
  | .backwardBuilt => "BackwardBuilt"

/-- Why a layer has no output shape for an input shape. -/
inductive ShapeFault where
  | unresolvedInput
  | zeroOperand
  | zeroKernelOrStride
  | noOutputChannels
  | kernelMisfit (width height stride : Nat) (axis : Axis) (extent : Int)
  | zeroDilation
  | windowMisfit (window : Nat) (axis : Axis) (extent : Int)
  | noOutputUnits
  | zeroKernel
  | negativeEpsilon
  | zeroScale
  | keepProbability (p : Binary32)
deriving DecidableEq, Repr

/-- The wording of a shape fault. -/
def ShapeFault.message : ShapeFault → String
  | .unresolvedInput => "input shape is unresolved"
  | .zeroOperand => "division by a zero operand"
  | .zeroKernelOrStride => "kernel and stride must be non-zero"
  | .noOutputChannels => "output channel count must be non-zero"
  | .kernelMisfit width height stride axis extent =>
    s!"{width}×{height} kernel with stride {stride} does not fit {axis.name} extent {extent}"
  | .zeroDilation => "dilation must be non-zero"
  | .windowMisfit window axis extent =>
    s!"pooling window {window} does not fit {axis.name} extent {extent}"
  | .noOutputUnits => "output unit count must be non-zero"
  | .zeroKernel => "kernel size must be non-zero"
  | .negativeEpsilon => "epsilon must not be negative"
  | .zeroScale => "scale factors must be non-zero"
  | .keepProbability p => s!"keep probability {p.text} outside (0, 1]"

/-- Why a backend refuses to append a node. -/
inductive BackendFault where
  | missingNode (node : Nat)
  | rejected (label : String)
  | noForwardNode (node : Nat) (label : String)
  | nothingToConcatenate
  | notConcatenation (node : Nat)
  | nothingToAccumulate
  | gradientCount (returned sources : Nat)
  | other (reason : String)
deriving DecidableEq, Repr

/-- The wording of a backend fault. -/
def BackendFault.message : BackendFault → String
  | .missingNode node => s!"node {node} does not exist"
  | .rejected label => s!"kernel {label} rejected"
  | .noForwardNode node label => s!"no forward node {node} for {label} gradient"
  | .nothingToConcatenate => "concatenation needs at least one input"
  | .notConcatenation node => s!"node {node} is not a concatenation"
  | .nothingToAccumulate => "nothing to accumulate"
  | .gradientCount returned sources =>
    s!"concatenation gradient returned {returned} handles for {sources} sources"
  | .other reason => reason

/-- What is wrong with an input source. -/
inductive SourceFault where
  | unknownRaw (slot : Nat)
  | missingRaw (slot : Nat)
  | unhandledRaw (slot : Nat)
  | rawOutOfRange (flow slot count : Nat)
  | flowOutOfRange (flow source : Nat)
  | noSuchInput (flow index : Nat)
  | fusionCount (planned given : Nat)
deriving DecidableEq, Repr

/-- The wording of a source fault. -/
def SourceFault.message : SourceFault → String
  | .unknownRaw slot => s!"raw {slot}"
  | .missingRaw slot => s!"raw input {slot} does not exist"
  | .unhandledRaw slot => s!"raw input {slot} has no graph handle"
  | .rawOutOfRange flow slot count =>
    s!"flow {flow} reads raw input {slot}, but only {count} exist"
  | .flowOutOfRange flow source => s!"flow {flow} reads missing flow {source}"
  | .noSuchInput flow index => s!"flow {flow} has no input {index}"
  | .fusionCount planned given => s!"fusion planned for {planned} sources, got {given}"

/-- What is wrong with a configuration. -/
inductive ConfigFault where
  | tooFewPasses (passes : Nat)
  | badAlignment (alignment : Nat)
  | noWorkers
  | zeroFusionAlignment
  /-- There are no workers for an inference in parallel. -/
  | noThreads (reason : String)
deriving DecidableEq, Repr

/-- The wording of a configuration fault. -/
def ConfigFault.message : ConfigFault → String
  | .tooFewPasses passes => s!"max_inference_passes must be at least 2, got {passes}"
  | .badAlignment alignment =>
    s!"channel_alignment must be a non-zero power of two, got {alignment}"
  | .noWorkers => "worker_threads must be at least 1"
  | .zeroFusionAlignment => "channel alignment must be non-zero"
  | .noThreads reason => s!"thread pool: {reason}"

/-! ## Failures -/

/-- Why an operation fails. -/
inductive Failure where
  /-- A layer, or the flow itself, has no output shape; `place` names it. -/
  | shape (place : String) (fault : ShapeFault)
  /-- A flow reads nothing. -/
  | noInputs (flow : String)
  /-- A flow is read before it has an output handle. -/
  | notBuilt (dependency : Nat)
  /-- The reference from one flow to the other closes a cycle. -/
  | cycle (reader source : Nat)
  /-- The backend refused a node. -/
  | backend (fault : BackendFault)
  /-- A reference points nowhere. -/
  | badSource (fault : SourceFault)
  /-- No flow has this id. -/
  | flowNotFound (id : Nat)
  /-- No layer has this index. -/
  | layerNotFound (index : Nat)
  /-- A flow is not at the stage that the operation needs. -/
  | wrongStage (expected actual : Stage)
  /-- Shapes still move after this many passes. -/
  | notSettled (passes : Nat)
  /-- A configuration is refused. -/
  | badConfig (fault : ConfigFault)
  /-- A document cannot be read. -/
  | badDocument
  /-- A record has a version that is not supported. -/
  | badVersion (version : Nat)
  /-- A number left the range of the machine integers. -/
  | overflow
deriving DecidableEq, Repr

namespace Failure

/-- The wording of a failure. -/
def message : Failure → String
  | .shape place fault => s!"Shape error in {place}: {fault.message}"
  | .noInputs flow => s!"Flow '{flow}' has no input sources"
  | .notBuilt dependency => s!"Flow {dependency} has not produced an output handle yet"
  | .cycle reader source => s!"Flow {reader} cannot reference flow {source}: reference cycle"
  | .backend fault => s!"Backend error: {fault.message}"
  | .badSource fault => s!"Invalid input source: {fault.message}"
  | .flowNotFound id => s!"Flow not found: {id}"
  | .layerNotFound index => s!"Layer index {index} out of range"
  | .wrongStage expected actual =>
    s!"Invalid build state: expected {expected.name}, found {actual.name}"
  | .notSettled passes => s!"Dimension inference did not settle after {passes} passes"
  | .badConfig fault => s!"Invalid configuration: {fault.message}"
  | .badDocument => "The document cannot be read"
  | .badVersion version => s!"Unsupported record version {version}"
  | .overflow => "overflow"

/-- Puts the label of a flow in front of the place of a shape failure; other failures stay. -/
def inFlow (flow : String) : Failure → Failure
  | .shape place fault => .shape (flow ++ "/" ++ place) fault
  | other => other

theorem inFlow_inFlow (outer inner : String) (e : Failure) :
    (e.inFlow inner).inFlow outer = e.inFlow (outer ++ "/" ++ inner) := by
  cases e <;> simp [inFlow, String.append_assoc]

end Failure

end LayerFlow
