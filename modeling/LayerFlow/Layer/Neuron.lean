/-
LayerFlow.Layer.Neuron

Activation functions with up to three factors `a`, `b` and `c`.
-/
import LayerFlow.Kernel

namespace LayerFlow

/-- An activation function with its factors. -/
structure Neuron where
  kind : NeuronKind
  a : Binary32
  b : Binary32
  c : Binary32
deriving DecidableEq

namespace Neuron

/-- An activation function with its usual factors. -/
def ofKind (kind : NeuronKind) : Neuron :=
  match kind with
  | .linear | .tanh | .softPlus | .elu => ⟨kind, .one, .zero, .zero⟩
  | .hardSigmoid => ⟨kind, ⟨0x3e4ccccd⟩, ⟨0x3f000000⟩, .zero⟩
  | .reluN => ⟨kind, .zero, ⟨0x40c00000⟩, .zero⟩
  | .power => ⟨kind, .one, .zero, .one⟩
  | .exponential | .logarithm => ⟨kind, .one, .zero, ⟨0xbf800000⟩⟩
  | .relu | .sigmoid | .absolute | .softSign => ⟨kind, .zero, .zero, .zero⟩

/-- The name of the layer. -/
def name (l : Neuron) : String := l.kind.name

/-- The factors that the function reads, as a label shows them.  A function without factors, and
a rectifier without a leak, show none. -/
def config? (l : Neuron) : Option String :=
  if l.kind.factorCount = 0 ∨ (l.kind = .relu ∧ l.a.isZero) then none
  else
    let factors := [s!"a={l.a.text}", s!"b={l.b.text}", s!"c={l.c.text}"]
    some (", ".intercalate (factors.take l.kind.factorCount))

/-- The kernel of the layer. -/
def kernelKind (l : Neuron) : KernelKind := .neuron l.kind l.a l.b l.c

end Neuron

end LayerFlow
