/-
LayerFlow.Graph.Build

The nodes of a whole graph: forward in the order of evaluation, backward against it.  On the
way back every flow hands a gradient to each of its sources; what arrives at a flow or at a raw
input is summed.

Main statement: `gradientsInto_append`, gradients are collected in the order in which they are
handed out.
-/
import LayerFlow.Flow.Build
import LayerFlow.Graph.Inference

namespace LayerFlow

/-- The handles of a complete build: the output of each flow, and the gradient of each raw input
that is read at all. -/
structure GraphBuild where
  outputs : List Handle
  rawInputGradients : List (Option Handle)
deriving DecidableEq

namespace Graph

variable {β : Type} [Backend β]

/-- Runs an operation of the graph alone. -/
def onGraph {ε α : Type} (x : Op ε Graph α) : Op ε (Graph × β) α :=
  Op.zoom Prod.fst (fun g s => (g, s.2)) x

/-- Runs an operation of the backend alone. -/
def onBackend {ε α : Type} (x : Op ε β α) : Op ε (Graph × β) α :=
  Op.zoom Prod.snd (fun b s => (s.1, b)) x

/-! ## Forward -/

/-- Builds flows forward one after the other; `outputs` holds the handles of those built
already. -/
def buildForwardIn (raw : List Handle) (alignment : Nat) : (order : List Nat) →
    (outputs : List (Option Handle)) → Op Failure (Graph × β) (List (Option Handle))
  | [], outputs => pure outputs
  | id :: rest, outputs => do
    let output ← onFlow id (Flow.buildForward raw outputs alignment)
    buildForwardIn raw alignment rest (outputs.set id (some output))

/-- The handles of a table that has no gaps. -/
def completeOutputs (outputs : List (Option Handle)) : Except Failure (List Handle) :=
  outputs.zipIdx.mapM fun entry =>
    match entry.1 with
    | some h => .ok h
    | none => .error (.notBuilt entry.2)

/-- Builds all flows forward; the answer has the output of each flow. -/
def buildForwardAll (raw : List Handle) : Op Failure (Graph × β) (List Handle) := do
  let analysis ← onGraph ensureVerified
  let (g, _) ← Op.get
  let outputs ← buildForwardIn raw g.config.channelAlignment analysis.order
    (List.replicate g.size none)
  Op.ofExcept (completeOutputs outputs)

/-! ## Backward -/

/-- The gradients handed to a source, in the order in which they were handed out. -/
def gradientsInto (source : Source) (handed : List (Source × Handle)) : List Handle :=
  handed.filterMap fun entry => if entry.1 = source then some entry.2 else none

/-- The gradient that enters a flow: a seed if nothing reads its output, otherwise the sum of
what its readers handed out. -/
def enteringGradient (output : Handle) (arrived : List Handle) : Op Failure β Handle :=
  Op.mapError .backend
    (if arrived.isEmpty then Backend.appendOutputGradient output
      else Backend.appendAccumulation arrived)

/-- Builds flows backward one after the other; `handed` are the gradients handed out already,
and the answer adds those of the flows. -/
def buildBackwardIn : (order : List Nat) → (handed : List (Source × Handle)) →
    Op Failure (Graph × β) (List (Source × Handle))
  | [], handed => pure handed
  | id :: rest, handed => do
    let (g, _) ← Op.get
    let f ← Op.ofExcept (g.flow id)
    match f.outputHandle? with
    | none => Op.fail (.wrongStage .forwardBuilt f.state.stage)
    | some output =>
      let outputGradient ← onBackend
        (enteringGradient output (gradientsInto (.flow id) handed))
      let gradients ← onFlow id (Flow.buildBackward outputGradient)
      buildBackwardIn rest (handed ++ f.inputs.zip gradients)

/-- The gradient of a raw input, if any flow reads it. -/
def rawGradient (handed : List (Source × Handle)) (slot : Nat) :
    Op Failure β (Option Handle) :=
  match gradientsInto (.raw slot) handed with
  | [] => pure none
  | arrived => do
    let sum ← Op.mapError .backend (Backend.appendAccumulation arrived)
    pure (some sum)

/-- Builds all flows backward; the answer has the gradient of each raw input. -/
def buildBackwardAll : Op Failure (Graph × β) (List (Option Handle)) := do
  let analysis ← onGraph ensureVerified
  let handed ← buildBackwardIn analysis.order.reverse []
  let (g, _) ← Op.get
  onBackend (Op.forEach (rawGradient handed) (List.range g.rawInputs.length))

/-! ## Everything -/

/-- Infers all shapes and builds all flows forward and backward. -/
def buildAll (raw : List Handle) : Op Failure (Graph × β) GraphBuild := do
  let _ ← onGraph inferAll
  let outputs ← buildForwardAll raw
  let gradients ← buildBackwardAll
  let (g, _) ← Op.get
  let present := gradients.countP Option.isSome
  Op.say .info (s!"Built {g.size} flow(s): {outputs.length} output(s), " ++
    s!"{present} raw gradient(s)")
  pure ⟨outputs, gradients⟩

/-- Gradients are collected in the order in which they are handed out. -/
theorem gradientsInto_append (source : Source) (first second : List (Source × Handle)) :
    gradientsInto source (first ++ second) =
      gradientsInto source first ++ gradientsInto source second := by
  simp [gradientsInto]

end Graph

end LayerFlow
