/-
LayerFlow.Layer.Normalization

Normalization layers.  Those with learned parameters keep them in a store that grows with the
channels of the input.

Main statement: `prepare_eq_none_iff`, a store is handed out exactly by the kinds that have
parameters.
-/
import LayerFlow.Kernel
import LayerFlow.ParamStore

namespace LayerFlow

/-- A normalization with its factors and its parameter store. -/
structure Normalization where
  kind : NormalizationKind
  epsilon : Binary32
  alpha : Binary32
  beta : Binary32
  delta : Binary32
  store : ParamStore
deriving DecidableEq

namespace Normalization

/-- A normalization with its usual factors and an empty store. -/
def ofKind (kind : NormalizationKind) : Normalization :=
  match kind with
  | .crossChannel _ | .spatial _ _ =>
    ⟨kind, ⟨0x3727c5ac⟩, ⟨0x38d1b717⟩, ⟨0x3f400000⟩, .one, .empty kind.name⟩
  | .batch | .perInstance =>
    ⟨kind, ⟨0x3727c5ac⟩, .one, .one, .one, .empty kind.name⟩

/-- The name of the layer. -/
def name (l : Normalization) : String := l.kind.name

/-- The neighbourhood, as a label shows it. -/
def config? (l : Normalization) : Option String :=
  match l.kind with
  | .crossChannel size => some s!"size={size}"
  | .spatial width height => some s!"kernel={width}×{height}"
  | .batch | .perInstance => none

/-- Whether the neighbourhood is empty. -/
def emptyKernel (l : Normalization) : Bool :=
  match l.kind with
  | .crossChannel size => size = 0
  | .spatial width height => width = 0 || height = 0
  | .batch | .perInstance => false

/-- The shape stays, if the neighbourhood is not empty and the offset is not negative. -/
def outputShape (l : Normalization) (input : Shape) : Except Failure Shape :=
  if l.emptyKernel then .error (.shape l.name .zeroKernel)
  else if l.epsilon.lt .zero then .error (.shape l.name .negativeEpsilon)
  else .ok input

/-- The kernel of the layer. -/
def kernelKind (l : Normalization) : KernelKind :=
  .normalization l.kind l.epsilon l.alpha l.beta l.delta

/-- The store made ready for an input, if the kind has parameters. -/
def prepare (l : Normalization) (input : Shape) : Option ParamStore :=
  if l.kind.hasParameters then some (l.store.growTo (Size.ofExtent input.channels)) else none

theorem prepare_eq_none_iff (l : Normalization) (input : Shape) :
    l.prepare input = none ↔ l.kind.parameterNames = [] := by
  simp [prepare, NormalizationKind.hasParameters]

end Normalization

end LayerFlow
