/-
LayerFlow.Layer.Pooling

Pooling: every window of a channel is reduced to one value.

Main statement: `outputShape_channels`, pooling keeps channels and time steps.
-/
import LayerFlow.Kernel
import LayerFlow.Padding

namespace LayerFlow

/-- A pooling with its window. -/
structure Pooling where
  kind : PoolingKind
  kernelWidth : Nat
  kernelHeight : Nat
  strideX : Nat
  strideY : Nat
  padding : PaddingPolicy
deriving DecidableEq

namespace Pooling

/-- A square window that steps by its own size and stays inside. -/
def square (kind : PoolingKind) (size : Nat) : Pooling :=
  ⟨kind, size, size, size, size, .validOnly⟩

/-- The name of the layer. -/
def name (l : Pooling) : String := l.kind.name

/-- The measures, as a label shows them. -/
def config (l : Pooling) : String :=
  let dilation :=
    match l.kind with
    | .dilatedMax dilation => s!", dilation={dilation}"
    | _ => ""
  s!"kernel={l.kernelWidth}×{l.kernelHeight}, stride={l.strideX}×{l.strideY}" ++ dilation

/-- The size of a window once dilation pulls it apart. -/
def effectiveKernel (l : Pooling) (kernel : Nat) : Except Failure Nat :=
  match l.kind with
  | .dilatedMax dilation => do
    let reach ← Size.mul (kernel - 1) dilation
    Size.add reach 1
  | _ => .ok kernel

/-- The window along an axis. -/
def window (l : Pooling) (input : Shape) (axis : Axis) : Except Failure Window :=
  match axis with
  | .y => do
    let kernel ← l.effectiveKernel l.kernelHeight
    return ⟨.y, input.height, Extent.ofSize kernel, Extent.ofSize l.strideY⟩
  | _ => do
    let kernel ← l.effectiveKernel l.kernelWidth
    return ⟨axis, input.width, Extent.ofSize kernel, Extent.ofSize l.strideX⟩

/-- The checks before any window is placed. -/
def check (l : Pooling) : Except Failure Unit :=
  if l.kernelWidth = 0 ∨ l.kernelHeight = 0 ∨ l.strideX = 0 ∨ l.strideY = 0 then
    .error (.shape l.name .zeroKernelOrStride)
  else if l.kind = .dilatedMax 0 then .error (.shape l.name .zeroDilation)
  else .ok ()

/-- The output extent along an axis; `kernel` is the size to name if the window does not fit. -/
def extent (l : Pooling) (kernel : Nat) (w : Window) : Except Failure Int := do
  match ← l.padding.extent w with
  | some n => .ok n
  | none => .error (.shape l.name (.windowMisfit kernel w.axis w.input))

/-- The output shape for a known input shape. -/
def outputShape (l : Pooling) (input : Shape) : Except Failure Shape := do
  l.check
  let across ← l.window input .x
  let width ← l.extent l.kernelWidth across
  let down ← l.window input .y
  let height ← l.extent l.kernelHeight down
  return input.withExtent width height

/-- What is logged while the output shape is computed. -/
def shapeNotes (l : Pooling) (input : Shape) : List LogLine :=
  match l.check with
  | .error _ => []
  | .ok _ => l.padding.seriesNotes l.name [l.window input .x, l.window input .y]

/-- The kernel of the layer. -/
def kernelKind (l : Pooling) : KernelKind :=
  .pooling l.kind (l.kernelWidth, l.kernelHeight) (l.strideX, l.strideY)

/-- Pooling keeps channels and time steps. -/
theorem outputShape_channels {l : Pooling} {input output : Shape}
    (h : l.outputShape input = .ok output) :
    output.channels = input.channels ∧ output.timeSteps = input.timeSteps := by
  unfold outputShape at h
  simp only [bind, Except.bind, pure, Except.pure] at h
  repeat' split at h
  all_goals first
    | cases h; exact ⟨rfl, rfl⟩
    | cases h

end Pooling

end LayerFlow
