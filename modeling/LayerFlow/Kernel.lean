/-
LayerFlow.Kernel

Everything a backend needs to append one kernel: the kernel with its factors, its label and
the shapes before and after it.

Main statement: `eqv_refl_of_noNaN`, a kernel without NaN is equal to itself as numbers go.
-/
import LayerFlow.Binary32
import LayerFlow.Kernel.Kind
import LayerFlow.Shape

namespace LayerFlow

/-- A kernel and its factors. -/
inductive KernelKind where
  | arithmetic (operation : ArithmeticKind) (scale operand bias : Binary32)
  /-- Fixed weights are listed output channel by output channel; without them they are
  learned. -/
  | convolution (kind : ConvolutionKind) (kernel stride : Nat × Nat)
      (inChannels outChannels : Nat) (bias : Bool) (weights : Option (List Binary32))
  | pooling (kind : PoolingKind) (kernel stride : Nat × Nat)
  | fullyConnected (inWidth inHeight inChannels outUnits : Nat) (bias : Bool)
  | neuron (kind : NeuronKind) (a b c : Binary32)
  | softMax (kind : SoftMaxKind)
  | normalization (kind : NormalizationKind) (epsilon alpha beta delta : Binary32)
  | upSampling (kind : UpSamplingKind) (scale : Nat × Nat)
  | dropOut (keepProbability : Binary32) (seed : Nat)
deriving DecidableEq

namespace KernelKind

/-- The numbers among the factors, in order. -/
def numbers : KernelKind → List Binary32
  | .arithmetic _ scale operand bias => [scale, operand, bias]
  | .convolution _ _ _ _ _ _ weights => weights.getD []
  | .neuron _ a b c => [a, b, c]
  | .normalization _ epsilon alpha beta delta => [epsilon, alpha, beta, delta]
  | .dropOut keepProbability _ => [keepProbability]
  | .pooling _ _ _ | .fullyConnected _ _ _ _ _ | .softMax _ | .upSampling _ _ => []

/-- The kernel with every number among its factors replaced by zero. -/
def withoutNumbers : KernelKind → KernelKind
  | .arithmetic operation _ _ _ => .arithmetic operation .zero .zero .zero
  | .convolution kind kernel stride inChannels outChannels bias weights =>
    .convolution kind kernel stride inChannels outChannels bias
      (weights.map fun ws => ws.map fun _ => .zero)
  | .neuron kind _ _ _ => .neuron kind .zero .zero .zero
  | .normalization kind _ _ _ _ => .normalization kind .zero .zero .zero .zero
  | .dropOut _ seed => .dropOut .zero seed
  | .pooling kind kernel stride => .pooling kind kernel stride
  | .fullyConnected inWidth inHeight inChannels outUnits bias =>
    .fullyConnected inWidth inHeight inChannels outUnits bias
  | .softMax kind => .softMax kind
  | .upSampling kind scale => .upSampling kind scale

/-- Equality in which numbers are compared as numbers. -/
def eqv (a b : KernelKind) : Bool :=
  a.withoutNumbers == b.withoutNumbers &&
    (a.numbers.zip b.numbers).all fun pair => pair.1.eqv pair.2

end KernelKind

/-- One kernel to append. -/
structure Kernel where
  label : String
  kind : KernelKind
  input : Shape
  output : Shape
deriving DecidableEq

namespace Kernel

/-- Equality in which numbers are compared as numbers. -/
def eqv (a b : Kernel) : Bool :=
  a.label == b.label && a.kind.eqv b.kind && a.input == b.input && a.output == b.output

/-- A kernel without NaN is equal to itself. -/
theorem eqv_refl_of_noNaN {k : Kernel} (h : ∀ x ∈ k.kind.numbers, x.isNaN = false) :
    k.eqv k = true := by
  -- Compared with itself, a list of numbers agrees place by place.
  have hall : ∀ xs : List Binary32, (∀ x ∈ xs, x.isNaN = false) →
      ((xs.zip xs).all fun pair => pair.1.eqv pair.2) = true := by
    intro xs hxs
    induction xs with
    | nil => rfl
    | cons x xs ih =>
      have hx := (Binary32.eqv_self_iff x).mpr (hxs x List.mem_cons_self)
      simp only [List.zip_cons_cons, List.all_cons, hx, Bool.true_and]
      exact ih fun y hy => hxs y (List.mem_cons_of_mem _ hy)
  simp [eqv, KernelKind.eqv, hall _ h]

end Kernel

end LayerFlow
