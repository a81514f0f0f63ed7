/-
LayerFlow.Proofs.Flow.Faults

Why there are no shapes.  Besides numbers that leave the range of the machine there are only the
checks of the layers, and each of them names its layer; along a flow the name of the flow comes in
front.

Main statements: `Layer.outputShape_eq_error`, how a layer fails, and `Flow.chain_error`, how a
chain of layers does.
-/
import LayerFlow.Flow.Inference
import LayerFlow.Proofs.Layer.Refusals

namespace LayerFlow

open Traversal

/-! ## Layers -/

theorem Extent.overflowsOnly_check (n : Int) : OverflowsOnly (Extent.check n) :=
  fun _ h => (check_eq_error_iff.mp h).2

/-- A layer fails at one of its own checks, or at a number that is too large. -/
theorem Layer.outputShape_eq_error (l : Layer) {input : Shape} {e : Failure}
    (h : l.outputShape input = .error e) : e = .overflow ∨ ∃ fault, e = .shape l.name fault := by
  rw [outputShape] at h
  split at h
  · rcases (l.failsFor_resolvedOutputShape input).error e h with ⟨-, hfault⟩ | ⟨-, hover⟩
    · exact .inr hfault
    · exact .inl hover
  · cases h

/-! ## Chains of layers -/

theorem Shape.overflowsOnly_combine (sources : List Shape) :
    OverflowsOnly (Shape.combine sources) := by
  have hstack : ∀ (shapes : List Shape) (base : Shape), OverflowsOnly (base.stackAll shapes) := by
    intro shapes
    induction shapes with
    | nil => exact fun base => overflowsOnly_ok base
    | cons s rest ih =>
      intro base
      refine overflowsOnly_bind ?_ ih
      refine overflowsOnly_bind (Extent.overflowsOnly_check _) fun more => ?_
      exact overflowsOnly_bind (Extent.overflowsOnly_check _) fun total => overflowsOnly_ok _
  match sources with
  | [] => exact overflowsOnly_ok _
  | [single] => exact overflowsOnly_ok single
  | first :: second :: rest =>
    rw [combine]
    · split
      · exact hstack _ _
      · exact overflowsOnly_ok _
    · simp

namespace Flow

/-- A chain of layers fails as one of them does. -/
theorem chain_error {layers : List Layer} {input : Shape} {e : Failure}
    (h : chain layers input = .error e) :
    e = .overflow ∨ ∃ l ∈ layers, ∃ fault, e = .shape l.name fault := by
  induction layers generalizing input with
  | nil => cases h
  | cons l rest ih =>
    rw [chain] at h
    rcases bind_eq_error_iff.mp h with hfirst | ⟨next, -, hmore⟩
    · refine (l.outputShape_eq_error hfirst).imp_right ?_
      rintro ⟨fault, rfl⟩
      exact ⟨l, List.mem_cons_self, fault, rfl⟩
    · rcases bind_eq_error_iff.mp hmore with hrest | ⟨found, -, hdone⟩
      · refine (ih hrest).imp_right ?_
        rintro ⟨other, hother, hfault⟩
        exact ⟨other, List.mem_cons_of_mem l hother, hfault⟩
      · cases hdone

end Flow

end LayerFlow
