/-
LayerFlow.Proofs.Flow.Resolved

Which shapes along a flow are known.  A layer that answers at all makes a known shape of a known
one, whatever its other numbers; an unknown shape runs through a chain without a look at the
layers; and sources make a known shape together exactly if all of them are known.

Main statements: `Layer.isResolved_outputShape`, `Flow.chain_of_unresolved` and
`Shape.isResolved_combine_iff`.
-/
import LayerFlow.Proofs.Flow.Regular

namespace LayerFlow

open Traversal

/-! ## Layers -/

/-- The factors of an upsampling fit a signed extent. -/
def Layer.ScalesFit : Layer → Prop
  | .upSampling l => l.scaleX < 0x8000000000000000 ∧ l.scaleY < 0x8000000000000000
  | _ => True

instance : DecidablePred Layer.ScalesFit := fun l => by
  cases l <;> unfold Layer.ScalesFit <;> infer_instance

theorem Shape.isResolved_iff {s : Shape} : s.isResolved = true ↔ 0 ≤ s.width := decide_eq_true_iff

theorem UpSampling.isResolved_outputShape {l : UpSampling} {input output : Shape}
    (hinput : input.isResolved = true) (hx : l.scaleX < 0x8000000000000000)
    (hy : l.scaleY < 0x8000000000000000) (h : l.outputShape input = .ok output) :
    output.isResolved = true := by
  rw [outputShape_eq_ok hx hy h]
  exact Shape.isResolved_iff.mpr
    (Int.mul_nonneg (Shape.isResolved_iff.mp hinput) (Int.natCast_nonneg _))

namespace Layer

/-- A layer makes a known shape of a known one, if it makes one at all. -/
theorem isResolved_resolvedOutputShape {l : Layer} {input output : Shape} (hscales : l.ScalesFit)
    (hinput : input.isResolved = true) (h : l.resolvedOutputShape input = .ok output) :
    output.isResolved = true := by
  rcases resolvedOutputShape_cases h with
    rfl | ⟨l, rfl, h⟩ | ⟨l, rfl, h⟩ | ⟨l, rfl, -, rfl⟩ | ⟨l, rfl, h⟩
  · exact hinput
  · exact Shape.isResolved_iff.mpr (Int.le_of_lt (Convolution.outputShape_pos h).1)
  · exact Shape.isResolved_iff.mpr (Int.le_of_lt (Pooling.outputShape_pos h).1)
  · rfl
  · exact UpSampling.isResolved_outputShape hinput hscales.1 hscales.2 h

/-- The output of a layer is known exactly if its input is. -/
theorem isResolved_outputShape {l : Layer} {input output : Shape} (hscales : l.ScalesFit)
    (h : l.outputShape input = .ok output) : output.isResolved = input.isResolved := by
  cases hinput : input.isResolved with
  | true =>
    rw [outputShape, if_pos hinput] at h
    exact isResolved_resolvedOutputShape hscales hinput h
  | false =>
    rw [l.outputShape_unresolved hinput] at h
    cases h
    rfl

end Layer

/-! ## Chains -/

namespace Flow

/-- The output of a chain is known exactly if its input is. -/
theorem isResolved_chain {layers : List Layer} {input output : Shape} {inputs : List Shape}
    (hscales : ∀ l ∈ layers, l.ScalesFit) (h : chain layers input = .ok (inputs, output)) :
    output.isResolved = input.isResolved := by
  refine (forall_chain (P := fun s => s.isResolved = input.isResolved) ?_ rfl h).2
  exact fun l hl s next hs hnext => (Layer.isResolved_outputShape (hscales l hl) hnext).trans hs

/-- An unknown shape runs through every chain of layers, whatever they are, and all shapes behind
the first layer are the one that stands for nothing known. -/
theorem chain_of_unresolved (l : Layer) (rest : List Layer) {input : Shape}
    (h : input.isResolved = false) : chain (l :: rest) input =
      .ok (input :: List.replicate rest.length .unresolved, .unresolved) := by
  induction rest generalizing l input with
  | nil =>
    rw [chain, l.outputShape_unresolved h]
    rfl
  | cons next rest ih =>
    rw [chain, l.outputShape_unresolved h, bind_eq_ok_iff]
    exact ⟨_, rfl, bind_eq_ok_iff.mpr ⟨_, ih next Shape.isResolved_unresolved, rfl⟩⟩

end Flow

/-! ## Sources together -/

/-- Sources make a known shape together exactly if all of them are known, also one alone. -/
theorem Shape.isResolved_combine_iff {shapes : List Shape} {made : Shape} (hne : shapes ≠ [])
    (h : combine shapes = .ok made) :
    made.isResolved = true ↔ ∀ s ∈ shapes, s.isResolved = true := by
  rcases shapes with _ | ⟨first, _ | ⟨second, rest⟩⟩
  · exact absurd rfl hne
  · cases h
    rw [List.forall_mem_singleton]
  · refine ⟨fun hmade => (combine_eq_ok (by simp) h hmade).1, fun hall => ?_⟩
    change (if (first :: second :: rest).all isResolved then _ else _) = _ at h
    rw [if_pos (List.all_eq_true.mpr hall)] at h
    -- The stack lies over the area of the first source.
    rw [stackAll_eq_ok h]
    exact hall first List.mem_cons_self

end LayerFlow
