/-
LayerFlow.Layer.Nodes

The nodes of a single layer: its forward kernel and the gradient of that kernel.

Main statement: `appendForward_keeps`, appending a forward node changes nothing of a layer but
its parameter store.
-/
import LayerFlow.Backend
import LayerFlow.Layer

namespace LayerFlow.Layer

variable {β : Type} [Backend β]

/-- Asks the backend for the forward kernel of the layer in the state, with the parameter store
of the layer at hand; the layer keeps what the backend does to the store, even if it refuses
the kernel. -/
def requestForward (kernel : Kernel) (inputShape : Shape) (input : Handle) :
    Op Failure (Layer × β) Handle := fun s =>
  Op.zoom (fun s => (s.2, s.1.prepareStore inputShape))
    (fun t s => (s.1.withStore t.2, t.1))
    (Op.mapError .backend (Backend.appendForward kernel s.1.padding input)) s

/-- Appends the forward node of the layer in the state. -/
def appendForward (inputShape : Shape) (input : Handle) : Op Failure (Layer × β) Handle := do
  let (l, _) ← Op.get
  Op.note (l.shapeNotes inputShape)
  let kernel ← Op.ofExcept (l.kernel inputShape)
  let node ← requestForward kernel inputShape input
  Op.say .debug s!"{kernel.label}: forward {input.index} -> {node.index}"
  pure node

/-- Appends the gradient node of a layer, given its forward node of the same build. -/
def appendGradient (l : Layer) (forward : Handle) (inputShape : Shape)
    (outputGradient : Handle) : Op Failure β Handle := do
  Op.note (l.shapeNotes inputShape)
  let kernel ← Op.ofExcept (l.kernel inputShape)
  let node ← Op.mapError .backend (Backend.appendGradient forward kernel outputGradient)
  Op.say .debug s!"{kernel.label}: gradient {outputGradient.index} -> {node.index}"
  pure node

/-- Appending a forward node changes nothing of a layer but its parameter store. -/
theorem appendForward_keeps (inputShape : Shape) (input : Handle) (s : Layer × β) :
    ∃ store, ((appendForward inputShape input).run s).state.1 = s.1.withStore store := by
  obtain ⟨l, b⟩ := s
  simp only [appendForward, Op.run_bind, Op.run_get, Op.run_note, Op.run_ofExcept, Op.run_say,
    Op.run_pure]
  cases hk : l.kernel inputShape with
  | error e => exact ⟨none, by cases l <;> rfl⟩
  | ok kernel =>
    dsimp only
    -- Whatever the backend answers, the layer is the old one with the store it left.
    rcases hr : (requestForward kernel inputShape input).run (l, b) with ⟨result, t, log⟩
    refine ⟨((Op.mapError Failure.backend
      (Backend.appendForward kernel l.padding input)).run (b, l.prepareStore inputShape)).state.2,
      ?_⟩
    have hstate : t.1 = l.withStore ((Op.mapError Failure.backend
        (Backend.appendForward kernel l.padding input)).run
          (b, l.prepareStore inputShape)).state.2 := by
      have := congrArg (fun out => out.state.1) hr
      exact this.symm
    cases result <;> exact hstate

end LayerFlow.Layer
