/-
LayerFlow.Source

What a flow reads: a raw input of the graph or the output of another flow.

Main statement: `renumber_comp`, renumbering twice is renumbering once.
-/

namespace LayerFlow

/-- A source of a flow: the raw input in a slot, or the output of the flow with an id. -/
inductive Source where
  | raw (slot : Nat)
  | flow (id : Nat)
deriving DecidableEq, Repr

namespace Source

/-- The flow that a source refers to. -/
def flow? : Source → Option Nat
  | .raw _ => none
  | .flow id => some id

/-- The source after the flows got new numbers; raw inputs keep theirs. -/
def renumber (f : Nat → Nat) : Source → Source
  | .raw slot => .raw slot
  | .flow id => .flow (f id)

/-- The short name of a source. -/
def render : Source → String
  | .raw slot => s!"raw{slot}"
  | .flow id => s!"flow{id}"

/-- Renumbering twice is renumbering once by both steps. -/
theorem renumber_comp (f g : Nat → Nat) (s : Source) :
    (s.renumber f).renumber g = s.renumber (g ∘ f) := by
  cases s <;> rfl

@[simp] theorem flow?_renumber (f : Nat → Nat) (s : Source) :
    (s.renumber f).flow? = s.flow?.map f := by
  cases s <;> rfl

end Source

end LayerFlow
