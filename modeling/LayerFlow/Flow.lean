/-
LayerFlow.Flow

A flow: a chain of layers fed by one or more sources.  Shapes and handles are derived from the
layers and sources; an edit of the layers or sources sets the flow back to unbuilt, and shapes
of an inference that no longer holds are dropped.

Main statements: the edits keep what they do not name (`layers_reset`, `insertLayer_label`, …).
-/
import LayerFlow.Fusion.Nodes
import LayerFlow.Layer.Nodes
import LayerFlow.Source

namespace LayerFlow

/-! ## Types -/

/-- The handles of one forward build of a flow. -/
structure ForwardNodes where
  inputs : List Handle
  fusion : Option FusionNodes
  layers : List Handle
  output : Handle
deriving DecidableEq

/-- How far a flow is built, with the handles of the build. -/
inductive BuildState where
  | unbuilt
  | dimensionsInferred
  | forwardBuilt (forward : ForwardNodes)
  | backwardBuilt (forward : ForwardNodes) (inputGradients : List Handle)
deriving DecidableEq

namespace BuildState

/-- The stage without the handles. -/
def stage : BuildState → Stage
  | .unbuilt => .unbuilt
  | .dimensionsInferred => .dimensionsInferred
  | .forwardBuilt _ => .forwardBuilt
  | .backwardBuilt _ _ => .backwardBuilt

/-- The handles of the forward build. -/
def forward? : BuildState → Option ForwardNodes
  | .unbuilt | .dimensionsInferred => none
  | .forwardBuilt forward => some forward
  | .backwardBuilt forward _ => some forward

/-- The gradients for the sources. -/
def inputGradients? : BuildState → Option (List Handle)
  | .backwardBuilt _ gradients => some gradients
  | _ => none

end BuildState

/-- The shapes along a flow: of each source, of the input of each layer, of the combined input
and of the output. -/
structure FlowShapes where
  sources : List Shape
  layerInputs : List Shape
  input : Shape
  output : Shape
deriving DecidableEq

/-- No shapes. -/
def FlowShapes.none : FlowShapes := ⟨[], [], .unresolved, .unresolved⟩

/-- A flow. -/
structure Flow where
  label : String
  inputs : List Source
  layers : List Layer
  shapes : FlowShapes
  state : BuildState
deriving DecidableEq

namespace Flow

/-- A flow that nothing has been derived for. -/
def fresh (label : String) (inputs : List Source) (layers : List Layer) : Flow :=
  ⟨label, inputs, layers, .none, .unbuilt⟩

/-- The flows that a flow reads, with repetitions. -/
def dependencies (f : Flow) : List Nat := f.inputs.filterMap Source.flow?

/-- The output handle of a built flow. -/
def outputHandle? (f : Flow) : Option Handle := f.state.forward?.map ForwardNodes.output

/-! ## Edits -/

/-- Forgets the build. -/
def reset (f : Flow) : Flow := { f with state := .unbuilt }

/-- Forgets build and shapes. -/
def clear (f : Flow) : Flow := { f with shapes := .none, state := .unbuilt }

/-- Replaces the sources. -/
def withInputs (f : Flow) (inputs : List Source) : Flow :=
  { f with inputs := inputs, state := .unbuilt }

/-- Replaces the layers. -/
def withLayers (f : Flow) (layers : List Layer) : Flow :=
  { f with layers := layers, state := .unbuilt }

/-- Renames the flow. -/
def withLabel (f : Flow) (label : String) : Flow := { f with label := label }

/-- Appends a layer. -/
def pushLayer (f : Flow) (l : Layer) : Flow := f.withLayers (f.layers ++ [l])

/-- Inserts a layer before the one with an index. -/
def insertLayer (f : Flow) (index : Nat) (l : Layer) : Except Failure Flow :=
  if index ≤ f.layers.length then .ok (f.withLayers (f.layers.insertIdx index l))
  else .error (.layerNotFound index)

/-- Removes a layer; the answer is the layer and the rest of the flow. -/
def removeLayer (f : Flow) (index : Nat) : Except Failure (Layer × Flow) :=
  match f.layers[index]? with
  | some l => .ok (l, f.withLayers (f.layers.eraseIdx index))
  | none => .error (.layerNotFound index)

/-- Moves a layer to another place. -/
def moveLayer (f : Flow) (start stop : Nat) : Except Failure Flow :=
  match f.layers[start]? with
  | none => .error (.layerNotFound start)
  | some l =>
    if stop < f.layers.length then
      .ok (f.withLayers ((f.layers.eraseIdx start).insertIdx stop l))
    else .error (.layerNotFound stop)

/-- Changes a layer in place; an index out of range changes no layer, but the build is forgotten
all the same. -/
def modifyLayer (f : Flow) (index : Nat) (change : Layer → Layer) : Flow :=
  f.withLayers (f.layers.modify index change)

/-! ## Equality with numbers compared as numbers -/

/-- Whether two lists agree element by element. -/
def listEqv {α : Type} (eqv : α → α → Bool) (xs ys : List α) : Bool :=
  xs.length == ys.length && (xs.zip ys).all fun pair => eqv pair.1 pair.2

/-- Equality of forward builds. -/
def forwardEqv (a b : ForwardNodes) : Bool :=
  a.inputs == b.inputs &&
    (match a.fusion, b.fusion with
      | some s, some t => s.eqv t
      | none, none => true
      | _, _ => false) &&
    a.layers == b.layers && a.output == b.output

/-- Equality of build states. -/
def stateEqv : BuildState → BuildState → Bool
  | .unbuilt, .unbuilt => true
  | .dimensionsInferred, .dimensionsInferred => true
  | .forwardBuilt a, .forwardBuilt b => forwardEqv a b
  | .backwardBuilt a g, .backwardBuilt b h => forwardEqv a b && g == h
  | _, _ => false

/-- Equality of flows, derived shapes and builds included. -/
def eqv (a b : Flow) : Bool :=
  a.label == b.label && a.inputs == b.inputs && listEqv Layer.eqv a.layers b.layers &&
    a.shapes == b.shapes && stateEqv a.state b.state

/-! ## Laws -/

@[simp] theorem label_reset (f : Flow) : f.reset.label = f.label := rfl

@[simp] theorem inputs_reset (f : Flow) : f.reset.inputs = f.inputs := rfl

@[simp] theorem layers_reset (f : Flow) : f.reset.layers = f.layers := rfl

@[simp] theorem shapes_reset (f : Flow) : f.reset.shapes = f.shapes := rfl

@[simp] theorem state_reset (f : Flow) : f.reset.state = .unbuilt := rfl

@[simp] theorem dependencies_reset (f : Flow) : f.reset.dependencies = f.dependencies := rfl

@[simp] theorem label_clear (f : Flow) : f.clear.label = f.label := rfl

@[simp] theorem inputs_clear (f : Flow) : f.clear.inputs = f.inputs := rfl

@[simp] theorem layers_clear (f : Flow) : f.clear.layers = f.layers := rfl

@[simp] theorem shapes_clear (f : Flow) : f.clear.shapes = .none := rfl

@[simp] theorem state_clear (f : Flow) : f.clear.state = .unbuilt := rfl

@[simp] theorem inputs_withInputs (f : Flow) (inputs : List Source) :
    (f.withInputs inputs).inputs = inputs := rfl

/-- Inserting a layer keeps label and sources and forgets the build. -/
theorem insertLayer_label {f g : Flow} {index : Nat} {l : Layer}
    (h : f.insertLayer index l = .ok g) :
    g.label = f.label ∧ g.inputs = f.inputs ∧ g.state = .unbuilt := by
  unfold insertLayer at h
  split at h
  · cases h
    exact ⟨rfl, rfl, rfl⟩
  · cases h

end Flow

end LayerFlow
