/-
LayerFlow.Backend.Curtailed

A backend that misbehaves in one way: its concatenation gradients come back without the last
few handles, although every node is appended.  It serves to try out the checks of those who
ask for such gradients.
-/
import LayerFlow.Backend

namespace LayerFlow

/-- A backend whose concatenation gradients lack their last `dropped` handles. -/
structure Curtailed (β : Type) where
  inner : β
  dropped : Nat
deriving DecidableEq

namespace Curtailed

variable {β ε α : Type}

/-- Runs an operation of the backend inside. -/
def within (x : Op ε β α) : Op ε (Curtailed β) α :=
  Op.zoom Curtailed.inner (fun inner s => { s with inner := inner }) x

instance [Backend β] : Backend (Curtailed β) where
  appendForward kernel padding input :=
    Op.zoom (fun s => (s.1.inner, s.2)) (fun t s => ({ s.1 with inner := t.1 }, t.2))
      (Backend.appendForward kernel padding input)
  appendGradient forward kernel outputGradient :=
    within (Backend.appendGradient forward kernel outputGradient)
  appendConcatenation inputs := within (Backend.appendConcatenation inputs)
  appendConcatenationGradient concatenation outputGradient := do
    let gradients ← within (Backend.appendConcatenationGradient concatenation outputGradient)
    let s ← Op.get
    pure (gradients.take (gradients.length - s.dropped))
  appendOutputGradient output := within (Backend.appendOutputGradient output)
  appendAccumulation gradients := within (Backend.appendAccumulation gradients)

end Curtailed

end LayerFlow
