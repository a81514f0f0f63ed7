/-
LayerFlow.Layer.Convolution

Two-dimensional convolution, over all channels together or over each channel on its own.

Main statement: `outputShape_channels`, the channels of a result are the announced ones, and
there is at least one.
-/
import LayerFlow.Kernel
import LayerFlow.Padding

namespace LayerFlow

/-- A two-dimensional convolution.  The number of output channels counts for the standard kind
only. -/
structure Convolution where
  kind : ConvolutionKind
  outChannels : Nat
  kernelWidth : Nat
  kernelHeight : Nat
  strideX : Nat
  strideY : Nat
  bias : Bool
  padding : PaddingPolicy
deriving DecidableEq

namespace Convolution

/-- A standard convolution with all its measures. -/
def standard (outChannels kernelWidth kernelHeight strideX strideY : Nat) (bias : Bool)
    (padding : PaddingPolicy) : Convolution :=
  ⟨.standard, outChannels, kernelWidth, kernelHeight, strideX, strideY, bias, padding⟩

/-- A depthwise convolution that steps by one. -/
def depthwise (multiplier kernelWidth kernelHeight : Nat) (padding : PaddingPolicy) :
    Convolution :=
  ⟨.depthwise multiplier, 0, kernelWidth, kernelHeight, 1, 1, true, padding⟩

/-- The name of the layer. -/
def name (l : Convolution) : String := l.kind.name

/-- The measures, as a label shows them. -/
def config (l : Convolution) : String :=
  let channels :=
    match l.kind with
    | .standard => s!"out_channels={l.outChannels}"
    | .depthwise multiplier => s!"multiplier={multiplier}"
  channels ++ s!", kernel={l.kernelWidth}×{l.kernelHeight}" ++
    s!", stride={l.strideX}×{l.strideY}, bias={l.bias}"

/-- The number of output channels for an input, before any check. -/
def outputChannels (l : Convolution) (input : Shape) : Int :=
  match l.kind with
  | .standard => Extent.ofSize l.outChannels
  | .depthwise multiplier => input.channels * Extent.ofSize multiplier

/-- The window along an axis. -/
def window (l : Convolution) (input : Shape) : Axis → Window
  | .y => ⟨.y, input.height, Extent.ofSize l.kernelHeight, Extent.ofSize l.strideY⟩
  | axis => ⟨axis, input.width, Extent.ofSize l.kernelWidth, Extent.ofSize l.strideX⟩

/-- The checks before any window is placed; the answer is the number of output channels. -/
def checkedChannels (l : Convolution) (input : Shape) : Except Failure Int :=
  if l.kernelWidth = 0 ∨ l.kernelHeight = 0 ∨ l.strideX = 0 ∨ l.strideY = 0 then
    .error (.shape l.name .zeroKernelOrStride)
  else do
    let channels ← Extent.check (l.outputChannels input)
    if channels ≤ 0 then .error (.shape l.name .noOutputChannels) else .ok channels

/-- The output extent along an axis; `stride` is the one to name if the window does not fit. -/
def extent (l : Convolution) (stride : Nat) (w : Window) : Except Failure Int := do
  match ← l.padding.extent w with
  | some n => .ok n
  | none =>
    .error (.shape l.name
      (.kernelMisfit l.kernelWidth l.kernelHeight stride w.axis w.input))

/-- The output shape for a known input shape. -/
def outputShape (l : Convolution) (input : Shape) : Except Failure Shape := do
  let channels ← l.checkedChannels input
  let width ← l.extent l.strideX (l.window input .x)
  let height ← l.extent l.strideY (l.window input .y)
  return ⟨width, height, channels, input.timeSteps⟩

/-- What is logged while the output shape is computed. -/
def shapeNotes (l : Convolution) (input : Shape) : List LogLine :=
  match l.checkedChannels input with
  | .error _ => []
  | .ok _ =>
    l.padding.seriesNotes l.name [.ok (l.window input .x), .ok (l.window input .y)]

/-- The kernel of the layer for an input. -/
def kernelKind (l : Convolution) (input : Shape) : KernelKind :=
  .convolution l.kind (l.kernelWidth, l.kernelHeight) (l.strideX, l.strideY)
    (Size.ofExtent input.channels) (Size.ofExtent (l.outputChannels input)) l.bias none

/-- Passed checks announce the exact number of output channels, which is positive. -/
theorem checkedChannels_eq_ok {l : Convolution} {input : Shape} {channels : Int}
    (h : l.checkedChannels input = .ok channels) :
    channels = l.outputChannels input ∧ 0 < channels := by
  unfold checkedChannels at h
  split at h
  · cases h
  · rcases hk : Extent.check (l.outputChannels input) with e | n
    · rw [hk] at h
      cases h
    · rw [hk] at h
      obtain ⟨-, rfl⟩ := Extent.check_eq_ok_iff.mp hk
      change (if l.outputChannels input ≤ 0 then _ else _) = _ at h
      split at h
      · cases h
      · next hpos =>
        cases h
        exact ⟨rfl, Int.not_le.mp hpos⟩

/-- The channels of a result are the announced ones, and there is at least one. -/
theorem outputShape_channels {l : Convolution} {input output : Shape}
    (h : l.outputShape input = .ok output) :
    output.channels = l.outputChannels input ∧ 0 < output.channels := by
  unfold outputShape at h
  rcases hc : l.checkedChannels input with e | channels
  · rw [hc] at h
    cases h
  rcases hx : l.extent l.strideX (l.window input .x) with e | width
  · rw [hc, hx] at h
    cases h
  rcases hy : l.extent l.strideY (l.window input .y) with e | height
  · rw [hc, hx, hy] at h
    cases h
  rw [hc, hx, hy] at h
  cases h
  exact checkedChannels_eq_ok hc

end Convolution

end LayerFlow
