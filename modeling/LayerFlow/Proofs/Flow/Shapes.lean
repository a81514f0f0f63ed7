/-
LayerFlow.Proofs.Flow.Shapes

The shapes that fit a flow: one for each source, their combination, and the shapes that the
layers make of it.  Builds change nothing of a layer but its parameter store, and shapes,
kernels and padding do not look at the store, so what fits a flow keeps fitting.

Main statements: `evaluate_eq_ok_iff`, what an inference finds, and `Fits.of_bare`, shapes fit
layers as long as these differ in their stores only.
-/
import LayerFlow.Flow.Build
import LayerFlow.Proofs.Traversal

namespace LayerFlow

/-! ## Layers without their stores -/

/-- The layer with an empty parameter store; a layer without a store is kept. -/
def Layer.bare (l : Layer) : Layer := l.withStore (some (.empty ""))

namespace Layer

@[simp] theorem bare_withStore (l : Layer) (store : Option ParamStore) :
    (l.withStore store).bare = l.bare := by
  cases l <;> cases store <;> rfl

theorem outputShape_eq_of_bare {l l' : Layer} (h : l.bare = l'.bare) (input : Shape) :
    l.outputShape input = l'.outputShape input := by
  rw [← outputShape_withStore l, ← outputShape_withStore l']
  exact congrArg (fun m => m.outputShape input) h

theorem kernel_eq_of_bare {l l' : Layer} (h : l.bare = l'.bare) (input : Shape) :
    l.kernel input = l'.kernel input := by
  rw [← kernel_withStore l, ← kernel_withStore l']
  exact congrArg (fun m => m.kernel input) h

end Layer

namespace Flow

open Traversal

/-! ## Shapes that fit -/

/-- Shapes that belong together along a flow. -/
structure Fits (f : Flow) (shapes : FlowShapes) : Prop where
  inputs_ne_nil : f.inputs ≠ []
  length_sources : shapes.sources.length = f.inputs.length
  combine : Shape.combine shapes.sources = .ok shapes.input
  chain : chain f.layers shapes.input = .ok (shapes.layerInputs, shapes.output)

theorem Fits.length_layerInputs {f : Flow} {shapes : FlowShapes} (h : f.Fits shapes) :
    shapes.layerInputs.length = f.layers.length :=
  chain_length h.chain

/-- An inference finds the shapes of the sources and what follows from them. -/
theorem evaluate_eq_ok_iff {f : Flow} {resolve : Resolver} {shapes : FlowShapes} :
    f.evaluate resolve = .ok shapes ↔
      f.inputs ≠ [] ∧ f.inputs.mapM resolve = .ok shapes.sources ∧
        Shape.combine shapes.sources = .ok shapes.input ∧
        Flow.chain f.layers shapes.input = .ok (shapes.layerInputs, shapes.output) := by
  rw [evaluate, inputShapes, bind_eq_ok_iff]
  by_cases hempty : f.inputs = []
  · simp [hempty]
  have hne : f.inputs.isEmpty = false := by simpa using hempty
  simp only [hne, Bool.false_eq_true, if_false, bind_eq_ok_iff, pure_eq_ok_iff]
  constructor
  · rintro ⟨_, ⟨sources, hsources, input, hinput, rfl⟩, ⟨layerInputs, output⟩, hchain, rfl⟩
    exact ⟨hempty, hsources, hinput, hchain⟩
  · rintro ⟨-, hsources, hinput, hchain⟩
    exact ⟨_, ⟨_, hsources, _, hinput, rfl⟩, _, hchain, rfl⟩

theorem fits_of_evaluate {f : Flow} {resolve : Resolver} {shapes : FlowShapes}
    (h : f.evaluate resolve = .ok shapes) : f.Fits shapes := by
  obtain ⟨hne, hsources, hcombine, hchain⟩ := evaluate_eq_ok_iff.mp h
  exact ⟨hne, length_of_mapM_eq_ok hsources, hcombine, hchain⟩

/-! ## Chains do not look at stores -/

theorem chain_eq_of_bare {layers layers' : List Layer}
    (h : layers.map Layer.bare = layers'.map Layer.bare) (input : Shape) :
    Flow.chain layers input = Flow.chain layers' input := by
  induction layers generalizing layers' input with
  | nil =>
    cases layers' with
    | nil => rfl
    | cons l' rest' => cases h
  | cons l rest ih =>
    cases layers' with
    | nil => cases h
    | cons l' rest' =>
      rw [List.map_cons, List.map_cons] at h
      injection h with hl hrest
      rw [Flow.chain, Flow.chain, Layer.outputShape_eq_of_bare hl]
      cases l'.outputShape input with
      | error e => rfl
      | ok next => simp only [bind, Except.bind, ih hrest]

theorem Fits.of_bare {f f' : Flow} {shapes : FlowShapes} (h : f.Fits shapes)
    (hinputs : f'.inputs = f.inputs)
    (hlayers : f'.layers.map Layer.bare = f.layers.map Layer.bare) : f'.Fits shapes where
  inputs_ne_nil := hinputs ▸ h.inputs_ne_nil
  length_sources := hinputs ▸ h.length_sources
  combine := h.combine
  chain := (chain_eq_of_bare hlayers shapes.input).trans h.chain

end Flow

end LayerFlow
