/-
LayerFlow.Layer.Arithmetic

Element-wise arithmetic with a constant: `scale · x ∘ operand + bias`.
-/
import LayerFlow.Kernel

namespace LayerFlow

/-- Element-wise arithmetic with a constant operand. -/
structure Arithmetic where
  operation : ArithmeticKind
  scale : Binary32
  operand : Binary32
  bias : Binary32
deriving DecidableEq

namespace Arithmetic

/-- The operation on the unscaled input, without bias. -/
def ofOperand (operation : ArithmeticKind) (operand : Binary32) : Arithmetic :=
  ⟨operation, .one, operand, .zero⟩

/-- The name of the layer. -/
def name (l : Arithmetic) : String := l.operation.name

/-- The factors, as a label shows them. -/
def config (l : Arithmetic) : String :=
  s!"scale={l.scale.text}, operand={l.operand.text}, bias={l.bias.text}"

/-- The shape stays; only a division by zero has no result. -/
def outputShape (l : Arithmetic) (input : Shape) : Except Failure Shape :=
  if l.operation = .divide ∧ l.operand.isZero then .error (.shape l.name .zeroOperand)
  else .ok input

/-- The kernel of the layer. -/
def kernelKind (l : Arithmetic) : KernelKind :=
  .arithmetic l.operation l.scale l.operand l.bias

end Arithmetic

end LayerFlow
