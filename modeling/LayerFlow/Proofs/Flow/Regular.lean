/-
LayerFlow.Proofs.Flow.Regular

Shapes without negative numbers.  Layers whose sizes fit an extent make known shapes of known ones,
so they keep shapes regular along a chain, and so does stacking; on a regular shape the channels
that a kernel announces are those of its shapes.

Main statements: `Layer.known_outputShape`, `Layer.regular_outputShape`, `Shape.combine_eq_ok`,
what a stack looks like, and `Layer.convolution_channels`.
-/
import LayerFlow.Proofs.Flow.Shapes
import Mathlib.Algebra.GroupWithZero.Nat
import Mathlib.Algebra.Order.BigOperators.Group.List
import Mathlib.Algebra.Ring.Int.Defs

namespace LayerFlow

open Traversal

/-! ## Regular shapes and bounded layers -/

/-- A shape that is not known, or one without negative numbers. -/
def Shape.Regular (s : Shape) : Prop :=
  s.isResolved = false ∨ 0 ≤ s.width ∧ 0 ≤ s.height ∧ 0 ≤ s.channels ∧ 0 ≤ s.timeSteps

/-- A shape that is known, without negative numbers. -/
def Shape.Known (s : Shape) : Prop :=
  0 ≤ s.width ∧ 0 ≤ s.height ∧ 0 ≤ s.channels ∧ 0 ≤ s.timeSteps

theorem Shape.Known.isResolved {s : Shape} (h : s.Known) : s.isResolved = true :=
  decide_eq_true h.1

theorem Shape.Known.regular {s : Shape} (h : s.Known) : s.Regular := .inr h

theorem Shape.Regular.known {s : Shape} (h : s.Regular) (hresolved : s.isResolved = true) :
    s.Known := by
  rcases h with h | h
  · rw [hresolved] at h
    cases h
  · exact h

/-- The sizes among the measures of a layer. -/
def Layer.sizes : Layer → List Nat
  | .convolution l =>
    let multiplier :=
      match l.kind with
      | .standard => []
      | .depthwise multiplier => [multiplier]
    multiplier ++ [l.outChannels, l.kernelWidth, l.kernelHeight, l.strideX, l.strideY]
  | .pooling l =>
    let dilation :=
      match l.kind with
      | .dilatedMax dilation => [dilation]
      | _ => []
    dilation ++ [l.kernelWidth, l.kernelHeight, l.strideX, l.strideY]
  | .fullyConnected l => [l.outUnits]
  | .normalization l =>
    match l.kind with
    | .batch | .perInstance => []
    | .crossChannel size => [size]
    | .spatial width height => [width, height]
  | .upSampling l => [l.scaleX, l.scaleY]
  | .arithmetic _ | .neuron _ | .softMax _ | .dropOut _ => []

/-- All sizes of the layer fit a signed extent. -/
def Layer.Bounded (l : Layer) : Prop := ∀ n ∈ l.sizes, n < 0x8000000000000000

/-! ## Layers -/

/-- Where a window fits, it takes a position at least. -/
theorem PaddingPolicy.pos_of_extent {p : PaddingPolicy} {w : Window} {misfit : Failure} {n : Int}
    (h : (p.extent w >>= fun
      | some n => .ok n
      | none => .error misfit) = .ok n) : 0 < n := by
  obtain ⟨found, hfound, hn⟩ := bind_eq_ok_iff.mp h
  cases found with
  | none => cases hn
  | some m =>
    cases hn
    rw [extent] at hfound
    split at hfound
    · cases hfound
    obtain ⟨suggested, -, hsome⟩ := bind_eq_ok_iff.mp hfound
    obtain ⟨_, -, hm⟩ := Option.bind_eq_some_iff.mp (pure_eq_ok_iff.mp hsome).symm
    dsimp only at hm
    split at hm
    · next hpos =>
      cases hm
      exact hpos
    · cases hm

/-- The result of a convolution covers an area and has channels. -/
theorem Convolution.outputShape_pos {l : Convolution} {input output : Shape}
    (h : l.outputShape input = .ok output) : 0 < output.width ∧ 0 < output.height ∧
      0 < output.channels ∧ output.timeSteps = input.timeSteps := by
  obtain ⟨channels, hchannels, hrest⟩ := bind_eq_ok_iff.mp h
  obtain ⟨width, hwidth, hrest⟩ := bind_eq_ok_iff.mp hrest
  obtain ⟨height, hheight, hrest⟩ := bind_eq_ok_iff.mp hrest
  obtain rfl := pure_eq_ok_iff.mp hrest
  exact ⟨PaddingPolicy.pos_of_extent hwidth, PaddingPolicy.pos_of_extent hheight,
    (checkedChannels_eq_ok hchannels).2, rfl⟩

theorem Convolution.known_outputShape {l : Convolution} {input output : Shape}
    (hinput : input.Known) (h : l.outputShape input = .ok output) : output.Known := by
  obtain ⟨hwidth, hheight, hchannels, htime⟩ := outputShape_pos h
  exact ⟨Int.le_of_lt hwidth, Int.le_of_lt hheight, Int.le_of_lt hchannels,
    htime ▸ hinput.2.2.2⟩

/-- The result of a pooling covers an area. -/
theorem Pooling.outputShape_pos {l : Pooling} {input output : Shape}
    (h : l.outputShape input = .ok output) : 0 < output.width ∧ 0 < output.height := by
  obtain ⟨_, -, hrest⟩ := bind_eq_ok_iff.mp h
  obtain ⟨across, -, hrest⟩ := bind_eq_ok_iff.mp hrest
  obtain ⟨width, hwidth, hrest⟩ := bind_eq_ok_iff.mp hrest
  obtain ⟨down, -, hrest⟩ := bind_eq_ok_iff.mp hrest
  obtain ⟨height, hheight, hrest⟩ := bind_eq_ok_iff.mp hrest
  obtain rfl := pure_eq_ok_iff.mp hrest
  exact ⟨PaddingPolicy.pos_of_extent hwidth, PaddingPolicy.pos_of_extent hheight⟩

theorem Pooling.known_outputShape {l : Pooling} {input output : Shape} (hinput : input.Known)
    (h : l.outputShape input = .ok output) : output.Known := by
  obtain ⟨hwidth, hheight⟩ := outputShape_pos h
  obtain ⟨hchannels, htime⟩ := outputShape_channels h
  exact ⟨Int.le_of_lt hwidth, Int.le_of_lt hheight, hchannels ▸ hinput.2.2.1,
    htime ▸ hinput.2.2.2⟩

/-- Upsampling multiplies width and height by the factors, read as extents. -/
theorem UpSampling.outputShape_eq_withExtent {l : UpSampling} {input output : Shape}
    (h : l.outputShape input = .ok output) :
    output = input.withExtent (input.width * Extent.ofSize l.scaleX)
      (input.height * Extent.ofSize l.scaleY) := by
  rw [outputShape] at h
  split at h
  · cases h
  obtain ⟨width, hwidth, hrest⟩ := bind_eq_ok_iff.mp h
  obtain ⟨height, hheight, hrest⟩ := bind_eq_ok_iff.mp hrest
  obtain ⟨-, rfl⟩ := Extent.check_eq_ok_iff.mp hwidth
  obtain ⟨-, rfl⟩ := Extent.check_eq_ok_iff.mp hheight
  exact pure_eq_ok_iff.mp hrest

theorem UpSampling.outputShape_eq_ok {l : UpSampling} {input output : Shape}
    (hx : l.scaleX < 0x8000000000000000) (hy : l.scaleY < 0x8000000000000000)
    (h : l.outputShape input = .ok output) :
    output = input.withExtent (input.width * l.scaleX) (input.height * l.scaleY) := by
  rw [outputShape_eq_withExtent h, Extent.ofSize_eq hx, Extent.ofSize_eq hy]

theorem UpSampling.known_outputShape {l : UpSampling} {input output : Shape}
    (hinput : input.Known) (hx : l.scaleX < 0x8000000000000000)
    (hy : l.scaleY < 0x8000000000000000) (h : l.outputShape input = .ok output) :
    output.Known := by
  rw [outputShape_eq_ok hx hy h]
  exact ⟨Int.mul_nonneg hinput.1 (Int.natCast_nonneg _),
    Int.mul_nonneg hinput.2.1 (Int.natCast_nonneg _), hinput.2.2⟩

namespace Layer

/-- A layer that makes a shape at all keeps the one it is given, or is of one of the four kinds that
make another. -/
theorem resolvedOutputShape_cases {l : Layer} {input output : Shape}
    (h : l.resolvedOutputShape input = .ok output) :
    output = input ∨
      (∃ c, l = .convolution c ∧ c.outputShape input = .ok output) ∨
      (∃ p, l = .pooling p ∧ p.outputShape input = .ok output) ∨
      (∃ f, l = .fullyConnected f ∧ f.outUnits ≠ 0 ∧
        output = ⟨1, 1, Extent.ofSize f.outUnits, input.timeSteps⟩) ∨
      ∃ u, l = .upSampling u ∧ u.outputShape input = .ok output := by
  cases l with
  | arithmetic l =>
    simp only [resolvedOutputShape, Arithmetic.outputShape] at h
    split at h
    · cases h
    · exact .inl (Except.ok.inj h).symm
  | convolution l => exact .inr (.inl ⟨l, rfl, h⟩)
  | pooling l => exact .inr (.inr (.inl ⟨l, rfl, h⟩))
  | fullyConnected l =>
    simp only [resolvedOutputShape, FullyConnected.outputShape] at h
    split at h
    · cases h
    · next hunits => exact .inr (.inr (.inr (.inl ⟨l, rfl, hunits, (Except.ok.inj h).symm⟩)))
  | neuron l => exact .inl (Except.ok.inj h).symm
  | softMax l => exact .inl (Except.ok.inj h).symm
  | normalization l =>
    simp only [resolvedOutputShape, Normalization.outputShape] at h
    split at h
    · cases h
    split at h
    · cases h
    · exact .inl (Except.ok.inj h).symm
  | upSampling l => exact .inr (.inr (.inr (.inr ⟨l, rfl, h⟩)))
  | dropOut l =>
    simp only [resolvedOutputShape, DropOut.outputShape] at h
    split at h
    · exact .inl (Except.ok.inj h).symm
    · cases h

/-- Layers with bounded sizes make known shapes of known ones. -/
theorem known_outputShape {l : Layer} {input output : Shape} (hbounded : l.Bounded)
    (hinput : input.Known) (h : l.outputShape input = .ok output) : output.Known := by
  rw [outputShape, if_pos hinput.isResolved] at h
  rcases resolvedOutputShape_cases h with
    rfl | ⟨l, rfl, h⟩ | ⟨l, rfl, h⟩ | ⟨l, rfl, -, rfl⟩ | ⟨l, rfl, h⟩
  · exact hinput
  · exact Convolution.known_outputShape hinput h
  · exact Pooling.known_outputShape hinput h
  · have hunits := Extent.ofSize_eq (hbounded l.outUnits (by simp [sizes]))
    exact ⟨Int.zero_le_ofNat 1, Int.zero_le_ofNat 1, hunits ▸ Int.natCast_nonneg _,
      hinput.2.2.2⟩
  · exact UpSampling.known_outputShape hinput (hbounded _ (by simp [sizes]))
      (hbounded _ (by simp [sizes])) h

/-- Layers with bounded sizes keep shapes regular. -/
theorem regular_outputShape {l : Layer} {input output : Shape} (hbounded : l.Bounded)
    (hinput : input.Regular) (h : l.outputShape input = .ok output) : output.Regular := by
  cases hresolved : input.isResolved with
  | true => exact (known_outputShape hbounded (hinput.known hresolved) h).regular
  | false =>
    rw [l.outputShape_unresolved hresolved] at h
    exact .inl (Except.ok.inj h ▸ rfl)

/-- On a known shape a layer has a kernel as soon as it has an output shape. -/
theorem exists_kernel {l : Layer} {input output : Shape} (hinput : input.isResolved = true)
    (h : l.outputShape input = .ok output) : ∃ kernel, l.kernel input = .ok kernel := by
  rw [outputShape, if_pos hinput] at h
  rw [kernel, if_pos hinput]
  exact ⟨_, bind_eq_ok_iff.mpr ⟨output, h, rfl⟩⟩

/-- On a regular shape a convolution has the channels of its shapes, and weights to learn. -/
theorem convolution_channels {l : Layer} {input : Shape} {k : Kernel} (hinput : input.Regular)
    (h : l.kernel input = .ok k) {kind : ConvolutionKind} {kernel stride : Nat × Nat}
    {inChannels outChannels : Nat} {bias : Bool} {weights : Option (List Binary32)}
    (hkind : k.kind = .convolution kind kernel stride inChannels outChannels bias weights) :
    (inChannels : Int) = k.input.channels ∧ (outChannels : Int) = k.output.channels ∧
      weights = none := by
  rw [Layer.kernel] at h
  split at h
  · next hresolved =>
    obtain ⟨output, houtput, hk⟩ := bind_eq_ok_iff.mp h
    obtain rfl := pure_eq_ok_iff.mp hk
    cases l with
    | convolution l =>
      obtain ⟨hchannels, hpos⟩ := Convolution.outputShape_channels houtput
      have hnonneg := (hinput.known hresolved).2.2.1
      cases hkind
      refine ⟨Int.toNat_of_nonneg hnonneg, ?_, rfl⟩
      rw [hchannels] at hpos
      show ((l.outputChannels input).toNat : Int) = output.channels
      rw [Int.toNat_of_nonneg (Int.le_of_lt hpos), hchannels]
    | _ => cases hkind
  · cases h

end Layer

/-! ## Chains -/

/-- What the layers of a chain keep from shape to shape, all shapes along the chain have. -/
theorem Flow.forall_chain {P : Shape → Prop} {layers : List Layer} {input output : Shape}
    {inputs : List Shape}
    (hkeeps : ∀ l ∈ layers, ∀ s next, P s → l.outputShape s = .ok next → P next) (hinput : P input)
    (h : Flow.chain layers input = .ok (inputs, output)) : (∀ s ∈ inputs, P s) ∧ P output := by
  induction layers generalizing input inputs with
  | nil =>
    cases h
    exact ⟨by simp, hinput⟩
  | cons l rest ih =>
    rw [List.forall_mem_cons] at hkeeps
    obtain ⟨next, hnext, hrest⟩ := bind_eq_ok_iff.mp h
    obtain ⟨⟨more, last⟩, hchain, heq⟩ := bind_eq_ok_iff.mp hrest
    cases pure_eq_ok_iff.mp heq
    obtain ⟨hmore, houtput⟩ := ih hkeeps.2 (hkeeps.1 input next hinput hnext) hchain
    exact ⟨List.forall_mem_cons.mpr ⟨hinput, hmore⟩, houtput⟩

theorem Flow.known_chain {layers : List Layer} {input output : Shape} {inputs : List Shape}
    (hbounded : ∀ l ∈ layers, l.Bounded) (hinput : input.Known)
    (h : Flow.chain layers input = .ok (inputs, output)) :
    (∀ s ∈ inputs, s.Known) ∧ output.Known :=
  forall_chain (fun l hl _ _ hs hnext => l.known_outputShape (hbounded l hl) hs hnext) hinput h

theorem Flow.regular_chain {layers : List Layer} {input output : Shape} {inputs : List Shape}
    (hbounded : ∀ l ∈ layers, l.Bounded) (hinput : input.Regular)
    (h : Flow.chain layers input = .ok (inputs, output)) :
    (∀ s ∈ inputs, s.Regular) ∧ output.Regular :=
  forall_chain (fun l hl _ _ hs hnext => l.regular_outputShape (hbounded l hl) hs hnext) hinput h

/-! ## Stacks -/

namespace Shape

/-- The channels that a shape takes in a stack: its time steps count as channels. -/
def stacked (s : Shape) : Int := s.channels * s.timeSteps

theorem stackedChannels_eq_ok {s : Shape} {n : Int} (h : s.stackedChannels = .ok n) :
    n = s.stacked :=
  (Extent.check_eq_ok_iff.mp h).2

theorem Regular.stacked_nonneg {s : Shape} (h : s.Regular) (hresolved : s.isResolved = true) :
    0 ≤ s.stacked := by
  obtain ⟨-, -, hchannels, htime⟩ := h.known hresolved
  exact Int.mul_nonneg hchannels htime

theorem stackAll_eq_ok {base stack : Shape} {shapes : List Shape}
    (h : base.stackAll shapes = .ok stack) :
    stack = { base with channels := base.channels + (shapes.map stacked).sum } := by
  induction shapes generalizing base with
  | nil =>
    cases h
    simp
  | cons first rest ih =>
    obtain ⟨next, hnext, hrest⟩ := bind_eq_ok_iff.mp h
    obtain ⟨more, hmore, hadd⟩ := bind_eq_ok_iff.mp hnext
    obtain ⟨total, htotal, hnext⟩ := bind_eq_ok_iff.mp hadd
    obtain ⟨-, rfl⟩ := Extent.check_eq_ok_iff.mp hmore
    obtain ⟨-, rfl⟩ := Extent.check_eq_ok_iff.mp htotal
    obtain rfl := pure_eq_ok_iff.mp hnext
    rw [ih hrest, List.map_cons, List.sum_cons, ← Int.add_assoc]
    rfl

/-- The channels of shapes side by side over the area of the first one. -/
def stack : List Shape → Shape
  | [] => .unresolved
  | first :: rest => ⟨first.width, first.height, ((first :: rest).map stacked).sum, 1⟩

/-- Several shapes that make a known one are known themselves, and make their stack. -/
theorem combine_eq_ok {shapes : List Shape} {made : Shape} (hmany : 2 ≤ shapes.length)
    (h : combine shapes = .ok made) (hresolved : made.isResolved = true) :
    (∀ s ∈ shapes, s.isResolved = true) ∧ made = stack shapes := by
  rcases shapes with _ | ⟨first, _ | ⟨second, rest⟩⟩
  · simp at hmany
  · simp at hmany
  change (if (first :: second :: rest).all isResolved then _ else _) = _ at h
  split at h
  · next hall =>
    refine ⟨List.all_eq_true.mp hall, ?_⟩
    rw [stackAll_eq_ok h, Int.zero_add, stack]
  · cases h
    cases hresolved

/-- Stacking finds the channels of every shape on the way. -/
theorem mapM_stackedChannels_of_stackAll {base made : Shape} {shapes : List Shape}
    (h : base.stackAll shapes = .ok made) :
    shapes.mapM stackedChannels = .ok (shapes.map stacked) := by
  induction shapes generalizing base with
  | nil => rfl
  | cons first rest ih =>
    obtain ⟨next, hnext, hrest⟩ := bind_eq_ok_iff.mp h
    obtain ⟨more, hmore, -⟩ := bind_eq_ok_iff.mp hnext
    obtain rfl := stackedChannels_eq_ok hmore
    rw [List.mapM_cons]
    exact bind_eq_ok_iff.mpr ⟨_, hmore, bind_eq_ok_iff.mpr ⟨_, ih hrest, rfl⟩⟩

/-- Several known shapes are stacked one on the other. -/
theorem combine_eq_stackAll {first second : Shape} {rest : List Shape}
    (h : ∀ s ∈ first :: second :: rest, s.Known) : combine (first :: second :: rest) =
      stackAll ⟨first.width, first.height, 0, 1⟩ (first :: second :: rest) :=
  if_pos (List.all_eq_true.mpr fun s hs => (h s hs).isResolved)

theorem sum_map_stacked_nonneg {shapes : List Shape} (hregular : ∀ s ∈ shapes, s.Regular)
    (hresolved : ∀ s ∈ shapes, s.isResolved = true) : 0 ≤ (shapes.map stacked).sum := by
  refine List.sum_nonneg fun n hn => ?_
  obtain ⟨s, hs, rfl⟩ := List.mem_map.mp hn
  exact (hregular s hs).stacked_nonneg (hresolved s hs)

theorem regular_combine {shapes : List Shape} {made : Shape} (hregular : ∀ s ∈ shapes, s.Regular)
    (h : combine shapes = .ok made) : made.Regular := by
  by_cases hresolved : made.isResolved = true
  · rcases shapes with _ | ⟨first, _ | ⟨second, rest⟩⟩
    · cases h
      exact .inl rfl
    · cases h
      exact hregular _ List.mem_cons_self
    · obtain ⟨hall, rfl⟩ := combine_eq_ok (by simp) h hresolved
      have hfirst := (hregular first List.mem_cons_self).known (hall first List.mem_cons_self)
      exact .inr ⟨hfirst.1, hfirst.2.1, sum_map_stacked_nonneg hregular hall,
        Int.zero_le_ofNat 1⟩
  · exact .inl (by simpa using hresolved)

/-- Known shapes make a known one together. -/
theorem known_combine {shapes : List Shape} {made : Shape} (hne : shapes ≠ [])
    (hknown : ∀ s ∈ shapes, s.Known) (h : combine shapes = .ok made) : made.Known := by
  refine (regular_combine (fun s hs => (hknown s hs).regular) h).known ?_
  rcases shapes with _ | ⟨first, _ | ⟨second, rest⟩⟩
  · exact absurd rfl hne
  · cases h
    exact (hknown _ List.mem_cons_self).isResolved
  · -- The stack lies over the area of the first shape.
    rw [combine_eq_stackAll hknown] at h
    rw [stackAll_eq_ok h]
    exact (hknown first List.mem_cons_self).isResolved

end Shape

end LayerFlow
