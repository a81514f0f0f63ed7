/-
LayerFlow.Flow.Build

The nodes of a flow: forward, the fusion of several sources and then one node for each layer;
backward, the gradients of the layers from the last to the first and then those of the fusion.

Main statements: `appendLayers_length`, a forward build keeps the number of layers, and
`buildBackward_error`, a backward build that fails leaves the flow as it was.
-/
import LayerFlow.Flow.Inference

namespace LayerFlow.Flow

variable {β : Type} [Backend β]

/-! ## Forward -/

/-- The handle of a source: raw inputs by slot, flows by id as far as they are built. -/
def sourceHandle (raw : List Handle) (outputs : List (Option Handle)) :
    Source → Except Failure Handle
  | .raw slot =>
    match raw[slot]? with
    | some h => .ok h
    | none => .error (.badSource (.unhandledRaw slot))
  | .flow id =>
    match outputs[id]? with
    | some (some h) => .ok h
    | _ => .error (.notBuilt id)

/-- What a flow needs before it can be built forward. -/
def checkForward (f : Flow) : Except Failure Unit :=
  if f.state ≠ .dimensionsInferred then
    .error (.wrongStage .dimensionsInferred f.state.stage)
  else if f.inputs.isEmpty then .error (.noInputs f.label)
  else if f.shapes.input.isResolved then .ok ()
  else .error (.shape f.label .unresolvedInput)

/-- Appends the nodes of layers one after the other, each on the node before it.  The layers in
the state keep what happened to their parameter stores, even if a later layer fails. -/
def appendLayers : List Shape → Handle → Op Failure (List Layer × β) (List Handle)
  | [], _ => pure []
  | shape :: shapes, current => fun (layers, b) =>
    match layers with
    | [] => ⟨.ok [], ([], b), []⟩
    | l :: rest =>
      let first := (Layer.appendForward shape current).run (l, b)
      match first.result with
      | .error e => ⟨.error e, (first.state.1 :: rest, first.state.2), first.log⟩
      | .ok node =>
        let more := (appendLayers shapes node).run (rest, first.state.2)
        ⟨more.result.map (node :: ·), (first.state.1 :: more.state.1, more.state.2),
          first.log ++ more.log⟩

/-- Fuses the handles of several sources; a single handle needs no nodes. -/
def appendFusion (f : Flow) (handles : List Handle) (alignment : Nat) :
    Op Failure β (Option FusionNodes × Handle) :=
  match handles with
  | [single] => pure (none, single)
  | handles => do
    let counts ← Op.ofExcept (f.shapes.sources.mapM fun s => s.stackedChannels)
    let plan ← Op.ofExcept (FusionPlan.withAlignment (counts.map Size.ofExtent) alignment)
    let nodes ← FusionNodes.append plan handles f.shapes.input
    pure (some nodes, nodes.contraction)

/-- Appends the forward nodes of the flow in the state; the answer is its output. -/
def buildForward (raw : List Handle) (outputs : List (Option Handle)) (alignment : Nat) :
    Op Failure (Flow × β) Handle := do
  let (f, _) ← Op.get
  Op.ofExcept f.checkForward
  let handles ← Op.ofExcept (f.inputs.mapM (sourceHandle raw outputs))
  let (fusion, start) ← Op.zoom Prod.snd (fun b s => (s.1, b))
    (f.appendFusion handles alignment)
  let nodes ← Op.zoom (fun s => (s.1.layers, s.2))
    (fun t s => ({ s.1 with layers := t.1 }, t.2))
    (appendLayers f.shapes.layerInputs start)
  let output := nodes.getLast?.getD start
  Op.say .debug s!"{f.label}: forward graph ends at node {output.index}"
  Op.modify fun s =>
    ({ s.1 with state := .forwardBuilt ⟨handles, fusion, nodes, output⟩ }, s.2)
  pure output

/-! ## Backward -/

/-- A layer with its input shape and its forward node. -/
structure BuiltLayer where
  layer : Layer
  input : Shape
  node : Handle
deriving DecidableEq

/-- The layers of a flow with the nodes of a forward build. -/
def builtLayers (f : Flow) (forward : ForwardNodes) : List BuiltLayer :=
  ((f.layers.zip f.shapes.layerInputs).zip forward.layers).map fun entry =>
    ⟨entry.1.1, entry.1.2, entry.2⟩

/-- Appends gradients layer by layer in the given order; the answer is the last one. -/
def appendLayerGradients : List BuiltLayer → Handle → Op Failure β Handle
  | [], gradient => pure gradient
  | built :: rest, gradient => do
    let next ← built.layer.appendGradient built.node built.input gradient
    appendLayerGradients rest next

/-- The gradients of a built flow for its sources. -/
def appendGradients (f : Flow) (forward : ForwardNodes) (outputGradient : Handle) :
    Op Failure β (List Handle) := do
  let gradient ← appendLayerGradients (f.builtLayers forward).reverse outputGradient
  match forward.fusion with
  | some nodes => nodes.appendGradients gradient
  | none => pure [gradient]

/-- Appends the gradient nodes of the flow in the state; the answer has a gradient for each
source in order. -/
def buildBackward (outputGradient : Handle) : Op Failure (Flow × β) (List Handle) := do
  let (f, _) ← Op.get
  match f.state with
  | .forwardBuilt forward =>
    let gradients ← Op.zoom Prod.snd (fun b s => (s.1, b))
      (f.appendGradients forward outputGradient)
    Op.modify fun s => ({ s.1 with state := .backwardBuilt forward gradients }, s.2)
    pure gradients
  | other => Op.fail (.wrongStage .forwardBuilt other.stage)

/-! ## Laws -/

/-- A forward build keeps the number of layers. -/
theorem appendLayers_length (shapes : List Shape) (current : Handle) (layers : List Layer)
    (b : β) :
    ((appendLayers shapes current).run (layers, b)).state.1.length = layers.length := by
  induction shapes generalizing current layers b with
  | nil => rfl
  | cons shape shapes ih =>
    cases layers with
    | nil => rfl
    | cons l rest =>
      show (match ((Layer.appendForward shape current).run (l, b)).result with
        | .error e => (_ : Outcome Failure (List Layer × β) (List Handle))
        | .ok node => _).state.1.length = _
      cases ((Layer.appendForward shape current).run (l, b)).result with
      | error e => rfl
      | ok node =>
        show (_ :: _ : List Layer).length = _
        rw [List.length_cons, ih, List.length_cons]

/-- A backward build that fails leaves the flow as it was. -/
theorem buildBackward_error {outputGradient : Handle} {s : Flow × β} {e : Failure}
    (h : ((buildBackward outputGradient).run s).result = .error e) :
    ((buildBackward outputGradient).run s).state.1 = s.1 := by
  obtain ⟨f, b⟩ := s
  simp only [buildBackward, Op.run_bind, Op.run_get] at h ⊢
  -- Only a flow that is built forward gets as far as the backend.
  cases hf : f.state with
  | unbuilt => rfl
  | dimensionsInferred => rfl
  | backwardBuilt forward gradients => rfl
  | forwardBuilt forward =>
    rw [hf] at h
    simp only [Op.run_bind, Op.run_zoom] at h ⊢
    rcases hr : (f.appendGradients forward outputGradient).run b with ⟨result, t, log⟩
    cases result with
    | error e' => rfl
    | ok gradients =>
      rw [hr] at h
      cases h

end LayerFlow.Flow
