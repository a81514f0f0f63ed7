/-
LayerFlow.Flow.Inference

The shapes along a flow.  Several sources are stacked along the channels over the area of the
first one; the layers then change the shape one after the other.

Main statements: `chain_length`, a chain has one input shape for each layer, and
`infer_result`, an inference succeeds exactly if the flow has shapes.
-/
import LayerFlow.Flow

namespace LayerFlow

/-! ## Combining sources -/

namespace Shape

/-- Stacks shapes on a given one, first to last. -/
def stackAll (base : Shape) : List Shape → Except Failure Shape
  | [] => .ok base
  | s :: rest => do
    let next ← base.addChannels s.channels s.timeSteps
    next.stackAll rest

/-- The shape that several sources make together.  One source passes through; with several of
them an unknown one makes the whole unknown, and otherwise the channels are stacked over the
area of the first. -/
def combine : List Shape → Except Failure Shape
  | [] => .ok .unresolved
  | [single] => .ok single
  | first :: rest =>
    if (first :: rest).all isResolved then
      stackAll ⟨first.width, first.height, 0, 1⟩ (first :: rest)
    else .ok .unresolved

end Shape

/-! ## Chains of layers -/

namespace Flow

/-- The input shape of each layer of a chain, and the output shape of the chain. -/
def chain : List Layer → Shape → Except Failure (List Shape × Shape)
  | [], s => .ok ([], s)
  | l :: rest, s => do
    let next ← l.outputShape s
    let (inputs, output) ← chain rest next
    return (s :: inputs, output)

/-- What is logged while the shapes of a chain are computed. -/
def chainNotes : List Layer → Shape → List LogLine
  | [], _ => []
  | l :: rest, s =>
    l.shapeNotes s ++
      match l.outputShape s with
      | .ok next => chainNotes rest next
      | .error _ => []

/-- How the shape of a source is found. -/
abbrev Resolver : Type := Source → Except Failure Shape

/-- The shapes of the sources and the shape that they make together. -/
def inputShapes (f : Flow) (resolve : Resolver) : Except Failure (List Shape × Shape) :=
  if f.inputs.isEmpty then .error (.noInputs f.label)
  else do
    let sources ← f.inputs.mapM resolve
    let input ← Shape.combine sources
    return (sources, input)

/-- The shapes along a flow. -/
def evaluate (f : Flow) (resolve : Resolver) : Except Failure FlowShapes := do
  let (sources, input) ← f.inputShapes resolve
  let (layerInputs, output) ← chain f.layers input
  return ⟨sources, layerInputs, input, output⟩

/-- What is logged while the shapes along a flow are computed. -/
def evaluateNotes (f : Flow) (resolve : Resolver) : List LogLine :=
  match f.inputShapes resolve with
  | .ok (_, input) => chainNotes f.layers input
  | .error _ => []

/-! ## Inference -/

/-- The flow with newly inferred shapes. -/
def withShapes (f : Flow) (shapes : FlowShapes) : Flow :=
  { f with shapes := shapes, state := .dimensionsInferred }

/-- Whether new shapes change what readers of the flow, or its layers, see. -/
def differs (old new : FlowShapes) : Bool :=
  decide (new.input ≠ old.input) || decide (new.output ≠ old.output)

/-- Infers the shapes of the flow in the state; the answer tells whether its input or its output
changed.  A flow that has no shapes keeps none. -/
def infer (resolve : Resolver) : Op Failure Flow Bool := do
  let f ← Op.get
  Op.note (f.evaluateNotes resolve)
  match f.evaluate resolve with
  | .ok shapes =>
    let changed := differs f.shapes shapes
    Op.set (f.withShapes shapes)
    let mark := if changed then " (changed)" else ""
    Op.say .debug (s!"{f.label}: {shapes.input.render} -> {shapes.output.render}" ++ mark)
    pure changed
  | .error e =>
    Op.set f.clear
    Op.fail (e.inFlow f.label)

/-! ## Laws -/

/-- A chain has one input shape for each layer. -/
theorem chain_length {layers : List Layer} {s : Shape} {inputs : List Shape} {output : Shape}
    (h : chain layers s = .ok (inputs, output)) : inputs.length = layers.length := by
  induction layers generalizing s inputs with
  | nil =>
    simp only [chain, Except.ok.injEq, Prod.mk.injEq] at h
    simp [← h.1]
  | cons l rest ih =>
    rw [chain] at h
    rcases hl : l.outputShape s with e | next
    · rw [hl] at h
      cases h
    rcases hr : chain rest next with e | ⟨more, out⟩
    · simp only [hl, hr, bind, Except.bind] at h
      cases h
    simp only [hl, hr, bind, Except.bind, pure, Except.pure, Except.ok.injEq,
      Prod.mk.injEq] at h
    obtain ⟨rfl, rfl⟩ := h
    simp [ih hr]

/-- An inference answers exactly if the flow has shapes, and then stores them. -/
theorem infer_ok {f : Flow} {resolve : Resolver} {shapes : FlowShapes}
    (h : f.evaluate resolve = .ok shapes) :
    ((infer resolve).run f).result = .ok (differs f.shapes shapes) ∧
      ((infer resolve).run f).state = f.withShapes shapes := by
  simp [infer, Op.run_bind, h]

/-- An inference of a flow without shapes fails, naming the flow, and drops the old shapes. -/
theorem infer_error {f : Flow} {resolve : Resolver} {e : Failure}
    (h : f.evaluate resolve = .error e) :
    ((infer resolve).run f).result = .error (e.inFlow f.label) ∧
      ((infer resolve).run f).state = f.clear := by
  simp [infer, Op.run_bind, h]

end Flow

end LayerFlow
