/-
LayerFlow.Axis

The axes along which a window can slide.
-/

namespace LayerFlow

/-- An axis of a tensor: horizontal, vertical, or along the channels. -/
inductive Axis where
  | x
  | y
  | feature
deriving DecidableEq, Repr

/-- The name of an axis in messages. -/
def Axis.name : Axis → String
  | .x => "X"
  | .y => "Y"
  | .feature => "Feature"

end LayerFlow
