/-
LayerFlow.Proofs.Flow.Chained

The kernels of a flow fit together.  Inference and the forward build compute shapes on their own,
one from the shapes of the sources and the other kernel by kernel; on the nodes of a build they
agree: every kernel of a layer takes in the shape that its source has, and the contraction of
several sources takes in their padded stack and makes the stack that inference found.

Main statements: `ForwardCalls.chained`, `FusionCalls.start_shape` and
`BuildForwardCalls.chained`.
-/
import LayerFlow.Proofs.Flow.Calls
import LayerFlow.Proofs.Flow.Regular
import LayerFlow.Proofs.Fusion.Layout

namespace LayerFlow

open Traversal

/-! ## Stacks with padding -/

namespace Shape

/-- The channels of shapes side by side, each of them padded to the alignment. -/
def paddedTotal (alignment : Nat) (shapes : List Shape) : Nat :=
  (shapes.map fun s => paddedCount alignment s.stacked.toNat).sum

/-- The stack of shapes as a backend keeps it. -/
def paddedStack (alignment : Nat) : List Shape → Shape
  | [] => .unresolved
  | first :: rest => ⟨first.width, first.height, paddedTotal alignment (first :: rest), 1⟩

theorem sum_toNat_stacked {shapes : List Shape} (h : ∀ s ∈ shapes, 0 ≤ s.stacked) :
    (((shapes.map fun s => s.stacked.toNat).sum : Nat) : Int) = (shapes.map stacked).sum := by
  induction shapes with
  | nil => rfl
  | cons s shapes ih =>
    rw [List.forall_mem_cons] at h
    rw [List.map_cons, List.sum_cons, List.map_cons, List.sum_cons, ← ih h.2, Int.natCast_add,
      Int.toNat_of_nonneg h.1]

end Shape

/-- The kernel that selects the channels of several sources out of their padded stack. -/
structure IsContraction (alignment : Nat) (shapes : List Shape) (kernel : Kernel) : Prop where
  label : kernel.label = "Contraction"
  input : kernel.input = Shape.paddedStack alignment shapes
  output : kernel.output = Shape.stack shapes
  kind : ∃ (inChannels outChannels : Nat) (weights : List Binary32),
    kernel.kind = .convolution .standard (1, 1) (1, 1) inChannels outChannels false
      (some weights) ∧ (inChannels : Int) = kernel.input.channels ∧
    (outChannels : Int) = kernel.output.channels ∧
    weights.length = inChannels * outChannels

namespace Flow

/-- The contraction that a flow plans for several known sources. -/
theorem isContraction_of_fusionPlan {f : Flow} {alignment : Nat} {plan : FusionPlan}
    {kernel : Kernel} (hmany : 2 ≤ f.shapes.sources.length)
    (hcombine : Shape.combine f.shapes.sources = .ok f.shapes.input)
    (hresolved : f.shapes.input.isResolved = true) (hregular : ∀ s ∈ f.shapes.sources, s.Regular)
    (hfits : Shape.paddedTotal alignment f.shapes.sources < 0x8000000000000000)
    (hplan : f.fusionPlan alignment = .ok plan)
    (hkernel : plan.contraction f.shapes.input = .ok kernel) :
    IsContraction alignment f.shapes.sources kernel ∧ kernel.output = f.shapes.input := by
  obtain ⟨hall, hinput⟩ := Shape.combine_eq_ok hmany hcombine hresolved
  obtain ⟨counts, hcounts, hplan⟩ := bind_eq_ok_iff.mp hplan
  obtain rfl := eq_map_of_mapM hcounts fun _ _ => Shape.stackedChannels_eq_ok
  obtain ⟨hlogical, hpadded, halign⟩ := FusionPlan.sizes_of_withAlignment hplan
  -- Both totals fit an extent, the real one because it is not larger than the padded one.
  have hle : plan.logicalTotal ≤ plan.paddedTotal := by
    rw [hlogical, hpadded]
    exact sum_le_sum_paddedCount halign _
  rw [List.map_map] at hlogical hpadded
  rw [List.map_map] at hpadded
  have hpadded : plan.paddedTotal = Shape.paddedTotal alignment f.shapes.sources := hpadded
  have hsum : (plan.logicalTotal : Int) = (f.shapes.sources.map Shape.stacked).sum := by
    rw [hlogical]
    exact Shape.sum_toNat_stacked fun s hs => (hregular s hs).stacked_nonneg (hall s hs)
  obtain ⟨weights, hweights, rfl⟩ := FusionPlan.contraction_eq_ok hkernel
  rw [Extent.ofSize_eq (by omega), Extent.ofSize_eq (by omega), hsum, hinput]
  obtain ⟨first, rest, hshapes⟩ : ∃ first rest, f.shapes.sources = first :: rest :=
    List.exists_cons_of_length_pos (by omega)
  rw [hshapes] at hpadded hsum ⊢
  refine ⟨⟨rfl, ?_, rfl, _, _, weights, rfl, rfl, hsum, hweights⟩, rfl⟩
  rw [Shape.paddedStack, ← hpadded]
  rfl

/-! ## The kernels of a flow -/

variable {shapeAt : Handle → Option Shape} {f : Flow} {alignment : Nat} {start : Handle}
  {sources handles : List Handle} {calls : List Call}

/-- Every kernel that is asked for leaves a node with the shape of its output. -/
def LeavesShapes (shapeAt : Handle → Option Shape) (calls : List Call) : Prop :=
  ∀ kernel padding source node, .forward kernel padding source node ∈ calls →
    shapeAt node = some kernel.output

/-- A kernel of a layer on a regular shape, which is the shape of its source. -/
structure OfLayer (shapeAt : Handle → Option Shape) (kernel : Kernel) (source : Handle) : Prop where
  shape : shapeAt source = some kernel.input
  regular : kernel.input.Regular
  layer : ∃ l : Layer, l.kernel kernel.input = .ok kernel

/-- The kernels of layers fit together, from the shape that the first one takes in to the shape
that the chain ends with. -/
theorem ForwardCalls.chained {layers : List Layer} {shapes : List Shape} {input output : Shape}
    (h : ForwardCalls layers shapes start handles calls)
    (hchain : Flow.chain layers input = .ok (shapes, output)) (hregular : ∀ s ∈ shapes, s.Regular)
    (hleaves : LeavesShapes shapeAt calls) (hstart : shapeAt start = some input) :
    shapeAt (handles.getLast?.getD start) = some output ∧
      ∀ kernel padding source node, .forward kernel padding source node ∈ calls →
        OfLayer shapeAt kernel source := by
  induction h generalizing input with
  | nil start =>
    cases hchain
    exact ⟨hstart, by simp⟩
  | @cons l layers shape shapes kernel start node handles calls hkernel hrest ih =>
    obtain ⟨next, hnext, htail⟩ := bind_eq_ok_iff.mp hchain
    obtain ⟨⟨more, last⟩, hmore, heq⟩ := bind_eq_ok_iff.mp htail
    cases pure_eq_ok_iff.mp heq
    obtain ⟨-, hinput, houtput⟩ := Layer.kernel_output hkernel
    -- The chain goes on from the shape that the first kernel makes.
    obtain rfl : next = kernel.output := Except.ok.inj (hnext.symm.trans houtput)
    rw [List.forall_mem_cons] at hregular
    have hnode : shapeAt node = some kernel.output :=
      hleaves kernel l.padding start node List.mem_cons_self
    obtain ⟨hlast, hothers⟩ := ih hmore hregular.2
      (fun k p s n hmem => hleaves k p s n (List.mem_cons_of_mem _ hmem)) hnode
    refine ⟨?_, fun k p s n hmem => ?_⟩
    · rw [List.getLast?_cons, Option.getD_some]
      exact hlast
    · rcases List.mem_cons.mp hmem with heq | hmem
      · cases heq
        subst hinput
        exact ⟨hstart, hregular.1, l, hkernel⟩
      · exact hothers k p s n hmem

/-- What is known about the shapes of a flow that is built on sources with the shapes it was
inferred from. -/
structure Shaped (f : Flow) (shapeAt : Handle → Option Shape) (alignment : Nat)
    (given : List Handle) : Prop where
  sources : List.Forall₂ (fun h s => shapeAt h = some s) given f.shapes.sources
  combine : Shape.combine f.shapes.sources = .ok f.shapes.input
  chain : Flow.chain f.layers f.shapes.input = .ok (f.shapes.layerInputs, f.shapes.output)
  resolved : f.shapes.input.isResolved = true
  regular : ∀ s ∈ f.shapes.sources, s.Regular
  bounded : ∀ l ∈ f.layers, l.Bounded
  fits : 2 ≤ given.length →
    Shape.paddedTotal alignment f.shapes.sources < 0x8000000000000000

/-- The layers start from a node with the shape of the combined sources; what is asked for before
them is the contraction of several sources over their concatenation. -/
theorem FusionCalls.start_shape {fusion : Option FusionNodes}
    (h : FusionCalls f alignment sources fusion start calls)
    (hshaped : f.Shaped shapeAt alignment sources) (hleaves : LeavesShapes shapeAt calls) :
    shapeAt start = some f.shapes.input ∧
      ∀ kernel padding source node, .forward kernel padding source node ∈ calls →
        IsContraction alignment f.shapes.sources kernel ∧ kernel.output = f.shapes.input ∧
        .concatenation sources source ∈ calls ∧
        ∃ nodes, fusion = some nodes ∧ nodes.concatenation = source ∧ nodes.contraction = node := by
  cases h with
  | single source =>
    obtain ⟨shape, rest, hshape, hrest, hsources⟩ := List.forall₂_cons_left_iff.mp hshaped.sources
    obtain rfl := List.forall₂_nil_left_iff.mp hrest
    have hcombine := hshaped.combine
    rw [hsources] at hcombine
    cases hcombine
    exact ⟨hshape, by simp⟩
  | @several _ plan nodes hmany hplan hkernel hcount =>
    have hlength := hshaped.sources.length_eq
    obtain ⟨hcontraction, houtput⟩ := isContraction_of_fusionPlan (hlength ▸ hmany) hshaped.combine
      hshaped.resolved hshaped.regular (hshaped.fits hmany) hplan hkernel
    refine ⟨?_, fun kernel padding source node hmem => ?_⟩
    · rw [hleaves _ _ _ _ (List.mem_cons_of_mem _ List.mem_cons_self), houtput]
    · rcases List.mem_cons.mp hmem with heq | hmem
      · cases heq
      · cases List.mem_singleton.mp hmem
        exact ⟨hcontraction, houtput, List.mem_cons_self, nodes, rfl, rfl, rfl⟩

/-- The kernels that a flow asks for fit together, and the last of them, or the only source, has
the shape of the output. -/
theorem BuildForwardCalls.chained {raw : List Handle} {outputs : List (Option Handle)}
    {forward : ForwardNodes} (h : BuildForwardCalls f raw outputs alignment forward calls)
    (hshaped : f.Shaped shapeAt alignment forward.inputs) (hleaves : LeavesShapes shapeAt calls) :
    shapeAt forward.output = some f.shapes.output ∧
      ∀ kernel padding source node, .forward kernel padding source node ∈ calls →
        OfLayer shapeAt kernel source ∨
        IsContraction alignment f.shapes.sources kernel ∧ kernel.output = f.shapes.input ∧
        .concatenation forward.inputs source ∈ calls ∧
        ∃ nodes, forward.fusion = some nodes ∧ nodes.concatenation = source ∧
          nodes.contraction = node := by
  cases h with
  | @intro sources handles fusion start fusionCalls layerCalls hsources hfusion hlayers =>
    have hinput := Shape.regular_combine hshaped.regular hshaped.combine
    obtain ⟨hinputs, -⟩ := regular_chain hshaped.bounded hinput hshaped.chain
    obtain ⟨hstart, hcontraction⟩ := hfusion.start_shape hshaped fun k p s n hmem =>
      hleaves k p s n (List.mem_append_left _ hmem)
    obtain ⟨hlast, hlayer⟩ := hlayers.chained hshaped.chain hinputs
      (fun k p s n hmem => hleaves k p s n (List.mem_append_right _ hmem)) hstart
    refine ⟨hlast, fun kernel padding source node hmem => ?_⟩
    rcases List.mem_append.mp hmem with hmem | hmem
    · obtain ⟨hkernel, houtput, hconcat, hnodes⟩ := hcontraction kernel padding source node hmem
      exact .inr ⟨hkernel, houtput, List.mem_append_left _ hconcat, hnodes⟩
    · exact .inl (hlayer kernel padding source node hmem)

end Flow

end LayerFlow
