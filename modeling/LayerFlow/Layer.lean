/-
LayerFlow.Layer

One processing step of a flow: a closed set of layer kinds, each with its own measures, and
what all of them answer: name, label, padding, output shape, kernel, parameter store.

Main statements: `outputShape_unresolved`, an unknown input gives an unknown output whatever
the layer, and `kernel_output`, a kernel carries the shapes of its layer.
-/
import LayerFlow.Layer.Arithmetic
import LayerFlow.Layer.Convolution
import LayerFlow.Layer.DropOut
import LayerFlow.Layer.FullyConnected
import LayerFlow.Layer.Neuron
import LayerFlow.Layer.Normalization
import LayerFlow.Layer.Pooling
import LayerFlow.Layer.SoftMax
import LayerFlow.Layer.UpSampling

namespace LayerFlow

/-- One processing step of a flow. -/
inductive Layer where
  | arithmetic (l : Arithmetic)
  | convolution (l : Convolution)
  | pooling (l : Pooling)
  | fullyConnected (l : FullyConnected)
  | neuron (l : Neuron)
  | softMax (l : SoftMax)
  | normalization (l : Normalization)
  | upSampling (l : UpSampling)
  | dropOut (l : DropOut)
deriving DecidableEq

namespace Layer

/-! ## Names -/

/-- The name of a layer. -/
def name : Layer → String
  | .arithmetic l => l.name
  | .convolution l => l.name
  | .pooling l => l.name
  | .fullyConnected l => l.name
  | .neuron l => l.name
  | .softMax l => l.name
  | .normalization l => l.name
  | .upSampling l => l.name
  | .dropOut l => l.name

/-- The measures that the label of a layer shows, if any. -/
def config? : Layer → Option String
  | .arithmetic l => some l.config
  | .convolution l => some l.config
  | .pooling l => some l.config
  | .fullyConnected l => some l.config
  | .neuron l => l.config?
  | .softMax _ => none
  | .normalization l => l.config?
  | .upSampling l => some l.config
  | .dropOut l => some l.config

/-- The name of a layer with its measures in parentheses. -/
def label (l : Layer) : String :=
  match l.config? with
  | some config => s!"{l.name}({config})"
  | none => l.name

/-! ## Shapes and kernels -/

/-- How the windows of a layer treat the border. -/
def padding : Layer → PaddingPolicy
  | .convolution l => l.padding
  | .pooling l => l.padding
  | _ => .validOnly

/-- Whether a layer has weights or parameters to learn. -/
def requiresParameters : Layer → Bool
  | .convolution _ | .fullyConnected _ => true
  | .normalization l => l.kind.hasParameters
  | _ => false

/-- The output shape for an input shape that is known. -/
def resolvedOutputShape (l : Layer) (input : Shape) : Except Failure Shape :=
  match l with
  | .arithmetic l => l.outputShape input
  | .convolution l => l.outputShape input
  | .pooling l => l.outputShape input
  | .fullyConnected l => l.outputShape input
  | .normalization l => l.outputShape input
  | .upSampling l => l.outputShape input
  | .dropOut l => l.outputShape input
  | .neuron _ | .softMax _ => .ok input

/-- The output shape of a layer; of an unknown input it is unknown, and nothing is checked. -/
def outputShape (l : Layer) (input : Shape) : Except Failure Shape :=
  if input.isResolved then l.resolvedOutputShape input else .ok .unresolved

/-- What is logged while the output shape of a layer is computed. -/
def shapeNotes (l : Layer) (input : Shape) : List LogLine :=
  if input.isResolved then
    match l with
    | .convolution l => l.shapeNotes input
    | .pooling l => l.shapeNotes input
    | _ => []
  else []

/-- The kernel of a layer with its factors. -/
def kernelKind (l : Layer) (input : Shape) : KernelKind :=
  match l with
  | .arithmetic l => l.kernelKind
  | .convolution l => l.kernelKind input
  | .pooling l => l.kernelKind
  | .fullyConnected l => l.kernelKind input
  | .neuron l => l.kernelKind
  | .softMax l => l.kernelKind
  | .normalization l => l.kernelKind
  | .upSampling l => l.kernelKind
  | .dropOut l => l.kernelKind

/-- The kernel that a backend has to append for a layer on a known input. -/
def kernel (l : Layer) (input : Shape) : Except Failure Kernel :=
  if input.isResolved then do
    let output ← l.resolvedOutputShape input
    return ⟨l.label, l.kernelKind input, input, output⟩
  else .error (.shape l.label .unresolvedInput)

/-! ## Parameters -/

/-- The parameter store of a normalization layer. -/
def store? : Layer → Option ParamStore
  | .normalization l => some l.store
  | _ => none

/-- The store made ready for an input, if the layer has parameters to fill. -/
def prepareStore (l : Layer) (input : Shape) : Option ParamStore :=
  match l with
  | .normalization l => l.prepare input
  | _ => none

/-- The layer with another parameter store; layers without one stay as they are. -/
def withStore (l : Layer) (store : Option ParamStore) : Layer :=
  match l, store with
  | .normalization l, some store => .normalization { l with store := store }
  | l, _ => l

/-! ## Equality with numbers compared as numbers -/

/-- The numbers among the factors of a layer, in order. -/
def numbers : Layer → List Binary32
  | .arithmetic l => [l.scale, l.operand, l.bias]
  | .neuron l => [l.a, l.b, l.c]
  | .normalization l => [l.epsilon, l.alpha, l.beta, l.delta]
  | .dropOut l => [l.keepProbability]
  | _ => []

/-- The layer with every number replaced by zero and without parameters. -/
def withoutNumbers : Layer → Layer
  | .arithmetic l => .arithmetic ⟨l.operation, .zero, .zero, .zero⟩
  | .neuron l => .neuron ⟨l.kind, .zero, .zero, .zero⟩
  | .normalization l => .normalization ⟨l.kind, .zero, .zero, .zero, .zero, .empty ""⟩
  | .dropOut l => .dropOut ⟨.zero, l.seed⟩
  | l => l

/-- Whether two layers are equal when numbers are compared as numbers. -/
def eqv (a b : Layer) : Bool :=
  a.withoutNumbers == b.withoutNumbers &&
    ((a.numbers.zip b.numbers).all fun pair => pair.1.eqv pair.2) &&
    (match a.store?, b.store? with
      | some s, some t => s.eqv t
      | none, none => true
      | _, _ => false)

/-! ## Laws -/

/-- An unknown input gives an unknown output, whatever the layer. -/
theorem outputShape_unresolved (l : Layer) {input : Shape} (h : input.isResolved = false) :
    l.outputShape input = .ok .unresolved := by
  simp [outputShape, h]

/-- A kernel carries the label and the shapes of its layer. -/
theorem kernel_output {l : Layer} {input : Shape} {k : Kernel} (h : l.kernel input = .ok k) :
    k.label = l.label ∧ k.input = input ∧ l.outputShape input = .ok k.output := by
  unfold kernel at h
  split at h
  · next hres =>
    cases ho : l.resolvedOutputShape input with
    | error e => rw [ho] at h; cases h
    | ok output =>
      rw [ho] at h
      cases h
      simp [outputShape, hres, ho]
  · cases h

/-- Handing out a store and putting it back changes nothing. -/
theorem withStore_store? (l : Layer) : l.withStore l.store? = l := by
  cases l <;> rfl

/-- The label of a layer does not depend on its parameters. -/
theorem label_withStore (l : Layer) (store : Option ParamStore) :
    (l.withStore store).label = l.label := by
  cases l <;> cases store <;> rfl

/-- The output shape of a layer does not depend on its parameters. -/
theorem outputShape_withStore (l : Layer) (store : Option ParamStore) (input : Shape) :
    (l.withStore store).outputShape input = l.outputShape input := by
  cases l <;> cases store <;> rfl

/-- The kernel of a layer does not depend on its parameters. -/
theorem kernel_withStore (l : Layer) (store : Option ParamStore) (input : Shape) :
    (l.withStore store).kernel input = l.kernel input := by
  cases l <;> cases store <;> rfl

end Layer

end LayerFlow
