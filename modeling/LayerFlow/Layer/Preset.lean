/-
LayerFlow.Layer.Preset

Layers with their usual measures, by name.
-/
import LayerFlow.Layer

namespace LayerFlow.Layer

/-! ## Arithmetic -/

/-- Adds a constant. -/
def add (operand : Binary32) : Layer := .arithmetic (.ofOperand .add operand)

/-- Subtracts a constant. -/
def sub (operand : Binary32) : Layer := .arithmetic (.ofOperand .subtract operand)

/-- Multiplies by a constant. -/
def mul (operand : Binary32) : Layer := .arithmetic (.ofOperand .multiply operand)

/-- Divides by a constant. -/
def div (operand : Binary32) : Layer := .arithmetic (.ofOperand .divide operand)

/-! ## Windows -/

/-- A three by three convolution with bias that stays inside. -/
def conv2d (outChannels : Nat) : Layer :=
  .convolution (.standard outChannels 3 3 1 1 true .validOnly)

/-- A square depthwise convolution that keeps the area. -/
def depthwiseConv2d (multiplier kernel : Nat) : Layer :=
  .convolution (.depthwise multiplier kernel kernel .sizeSame)

/-- The maximum over squares. -/
def maxPool (size : Nat) : Layer := .pooling (.square .max size)

/-- The average over squares. -/
def avgPool (size : Nat) : Layer := .pooling (.square .average size)

/-! ## Dense layers and activations -/

/-- A fully connected layer with bias. -/
def dense (outUnits : Nat) : Layer := .fullyConnected ⟨outUnits, true⟩

/-- An activation function with its usual factors. -/
def activation (kind : NeuronKind) : Layer := .neuron (.ofKind kind)

/-- The rectifier. -/
def relu : Layer := activation .relu

/-- The rectifier with a leak. -/
def leakyRelu (slope : Binary32) : Layer := .neuron ⟨.relu, slope, .zero, .zero⟩

/-- The logistic function. -/
def sigmoid : Layer := activation .sigmoid

/-- The hyperbolic tangent. -/
def tanh : Layer := activation .tanh

/-- The soft maximum over channels. -/
def softmax : Layer := .softMax ⟨.softMax⟩

/-- The logarithm of the soft maximum. -/
def logSoftmax : Layer := .softMax ⟨.logSoftMax⟩

/-! ## Normalization, upsampling, dropout -/

/-- Normalization over the batch. -/
def batchNorm : Layer := .normalization (.ofKind .batch)

/-- Normalization of every instance on its own. -/
def instanceNorm : Layer := .normalization (.ofKind .perInstance)

/-- Normalization over neighbouring channels. -/
def crossChannelNorm (size : Nat) : Layer := .normalization (.ofKind (.crossChannel size))

/-- Upsampling by repetition. -/
def upsample (scale : Nat) : Layer := .upSampling ⟨.nearest, scale, scale⟩

/-- Upsampling by linear interpolation. -/
def upsampleBilinear (scale : Nat) (alignCorners : Bool) : Layer :=
  .upSampling ⟨.bilinear alignCorners, scale, scale⟩

/-- Dropout with seed zero. -/
def dropout (keepProbability : Binary32) : Layer := .dropOut ⟨keepProbability, 0⟩

end LayerFlow.Layer
