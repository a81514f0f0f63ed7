/-
LayerFlow.Kernel.Kind

The varieties of each kind of kernel, as documents name them, and what sets them apart: names,
default factors, the parameters that they read.

Main statement: `parameterNames_eq_nil_iff`, the normalizations without parameters are those
over a neighbourhood of fixed size.
-/

namespace LayerFlow

/-! ## Element-wise arithmetic -/

/-- The operation between a scaled input and a constant operand. -/
inductive ArithmeticKind where
  | add
  | subtract
  | multiply
  | divide
deriving DecidableEq, Repr

/-- The name of an arithmetic operation. -/
def ArithmeticKind.name : ArithmeticKind → String
  | .add => "Add"
  | .subtract => "Subtract"
  | .multiply => "Multiply"
  | .divide => "Divide"

/-! ## Convolution -/

/-- Whether a convolution mixes the channels, or treats each channel on its own and makes
`multiplier` channels of it. -/
inductive ConvolutionKind where
  | standard
  | depthwise (multiplier : Nat)
deriving DecidableEq, Repr

/-- The name of a convolution. -/
def ConvolutionKind.name : ConvolutionKind → String
  | .standard => "Conv2D"
  | .depthwise _ => "DepthwiseConv2D"

/-! ## Pooling -/

/-- How a window is reduced to one value. -/
inductive PoolingKind where
  | max
  | average
  | l2Norm
  | dilatedMax (dilation : Nat)
deriving DecidableEq, Repr

/-- The name of a pooling. -/
def PoolingKind.name : PoolingKind → String
  | .max => "MaxPool"
  | .average => "AvgPool"
  | .l2Norm => "L2NormPool"
  | .dilatedMax _ => "DilatedMaxPool"

/-! ## Activations -/

/-- The activation functions. -/
inductive NeuronKind where
  | relu
  | linear
  | sigmoid
  | hardSigmoid
  | tanh
  | absolute
  | softPlus
  | softSign
  | elu
  | reluN
  | power
  | exponential
  | logarithm
deriving DecidableEq, Repr

namespace NeuronKind

/-- All activation functions. -/
def all : List NeuronKind :=
  [.relu, .linear, .sigmoid, .hardSigmoid, .tanh, .absolute, .softPlus, .softSign, .elu, .reluN,
    .power, .exponential, .logarithm]

/-- The name of an activation function. -/
def name : NeuronKind → String
  | .relu => "ReLU"
  | .linear => "Linear"
  | .sigmoid => "Sigmoid"
  | .hardSigmoid => "HardSigmoid"
  | .tanh => "TanH"
  | .absolute => "Absolute"
  | .softPlus => "SoftPlus"
  | .softSign => "SoftSign"
  | .elu => "ELU"
  | .reluN => "ReLUN"
  | .power => "Power"
  | .exponential => "Exponential"
  | .logarithm => "Logarithm"

/-- How many of the three factors the function reads. -/
def factorCount : NeuronKind → Nat
  | .sigmoid | .absolute | .softSign => 0
  | .relu | .elu => 1
  | .reluN | .linear | .hardSigmoid | .tanh | .softPlus => 2
  | .power | .exponential | .logarithm => 3

theorem mem_all (kind : NeuronKind) : kind ∈ all := by
  cases kind <;> decide

end NeuronKind

/-! ## Soft maximum -/

/-- The soft maximum or its logarithm. -/
inductive SoftMaxKind where
  | softMax
  | logSoftMax
deriving DecidableEq, Repr

/-- The name of a soft maximum. -/
def SoftMaxKind.name : SoftMaxKind → String
  | .softMax => "SoftMax"
  | .logSoftMax => "LogSoftMax"

/-! ## Normalization -/

/-- What a normalization averages over. -/
inductive NormalizationKind where
  | batch
  | perInstance
  | crossChannel (kernelSize : Nat)
  | spatial (kernelWidth kernelHeight : Nat)
deriving DecidableEq, Repr

namespace NormalizationKind

/-- The name of a normalization. -/
def name : NormalizationKind → String
  | .batch => "BatchNorm"
  | .perInstance => "InstanceNorm"
  | .crossChannel _ => "CrossChannelNorm"
  | .spatial _ _ => "SpatialNorm"

/-- The parameter buffers it has. -/
def parameterNames : NormalizationKind → List String
  | .batch => ["gamma", "beta", "mean", "variance"]
  | .perInstance => ["gamma", "beta"]
  | .crossChannel _ | .spatial _ _ => []

/-- Whether it has parameter buffers at all. -/
def hasParameters (kind : NormalizationKind) : Bool := !kind.parameterNames.isEmpty

theorem parameterNames_eq_nil_iff (kind : NormalizationKind) :
    kind.parameterNames = [] ↔
      (∃ size, kind = .crossChannel size) ∨ ∃ width height, kind = .spatial width height := by
  cases kind <;> simp [parameterNames]

end NormalizationKind

/-! ## Upsampling -/

/-- How values between the old ones are made. -/
inductive UpSamplingKind where
  | nearest
  | bilinear (alignCorners : Bool)
deriving DecidableEq, Repr

/-- The name of an upsampling. -/
def UpSamplingKind.name : UpSamplingKind → String
  | .nearest => "UpSampleNearest"
  | .bilinear _ => "UpSampleBilinear"

end LayerFlow
