/-
LayerFlow.Graph.Edit

Edits of a graph.  Every reference keeps the flow it points at: inserting and removing a flow
renumbers the references to later ones.  An edit whose result is not in order is refused and
changes nothing; one that is accepted forgets the analysis and every build.

Main statement: `editFlows_eq`, an edit that is refused leaves nothing behind.
-/
import LayerFlow.Graph

namespace LayerFlow.Graph

/-! ## Raw inputs and settings -/

/-- Adds a raw input; the answer is its slot. -/
def addRawInput (shape : Shape) : Op Failure Graph Nat := do
  let g ← Op.get
  Op.set { g with rawInputs := g.rawInputs ++ [shape] }.resetAll
  pure g.rawInputs.length

/-- Changes the shape of a raw input. -/
def setRawInput (slot : Nat) (shape : Shape) : Op Failure Graph Unit := do
  let g ← Op.get
  if slot < g.rawInputs.length then
    Op.set { g with rawInputs := g.rawInputs.set slot shape }.resetAll
  else Op.fail (.badSource (.missingRaw slot))

/-- Changes the settings. -/
def setConfig (config : Config) : Op Failure Graph Unit := do
  let config ← Op.ofExcept config.check
  Op.modify fun g => { g with config := config }

/-! ## Flows -/

/-- Changes the list of flows.  The new list is put in place and checked then; if it is not in
order, the old one is put back.  The change itself fails only where the number of a flow leaves the
range of the machine: that ends the program in the middle of the change, and the state before it
stands for one in which nothing runs any more. -/
def editFlows (change : List Flow → Except Failure (List Flow)) : Op Failure Graph Unit := do
  let before ← Op.get
  let flows ← Op.ofExcept (change before.flows)
  Op.modify fun g => { g with flows := flows }
  let g ← Op.get
  match checkStructure g.rawInputs.length g.flows with
  | .ok () => Op.modify resetAll
  | .error e => do
    Op.modify fun g => { g with flows := before.flows }
    Op.fail e

/-- A change that is put back comes to the same as one that was checked beforehand and never made:
a refused edit leaves the graph as it was. -/
theorem editFlows_eq (change : List Flow → Except Failure (List Flow)) :
    editFlows change = (do
      let g ← Op.get
      let flows ← Op.ofExcept (change g.flows)
      Op.ofExcept (checkStructure g.rawInputs.length flows)
      Op.set { g with flows := flows }.resetAll) := by
  funext g
  show (editFlows change).run g = Op.run _ g
  simp only [editFlows, Op.run_bind, Op.run_get, Op.run_ofExcept]
  cases change g.flows with
  | error e => rfl
  | ok flows =>
    -- Accepted, both set the new flows and reset them; refused, the graph has its old flows again.
    simp only [Op.run_modify]
    cases checkStructure g.rawInputs.length flows <;> rfl

/-- Adds a flow at the end; the answer is its id. -/
def addFlow (f : Flow) : Op Failure Graph Nat := do
  let g ← Op.get
  editFlows fun flows => .ok (flows ++ [f])
  Op.say .info s!"Added flow {g.size} '{f.label}'"
  pure g.size

/-- The new number of a source once a flow is inserted at an index; the highest number of all
has no successor. -/
def shiftSource (index : Nat) : Source → Except Failure Source
  | .raw slot => .ok (.raw slot)
  | .flow id => if index ≤ id then do return .flow (← Size.add id 1) else .ok (.flow id)

/-- The flow with renumbered sources, after an insertion at an index. -/
def shiftFlow (index : Nat) (f : Flow) : Except Failure Flow := do
  let inputs ← f.inputs.mapM (shiftSource index)
  return f.withInputs inputs

/-- Inserts a flow at an index; its own references count as before the insertion. -/
def insertFlow (index : Nat) (f : Flow) : Op Failure Graph Nat := do
  let g ← Op.get
  if index ≤ g.size then
    editFlows fun flows => (flows.insertIdx index f).mapM (shiftFlow index)
    Op.say .info s!"Inserted flow {index} '{f.label}'"
    pure index
  else Op.fail (.flowNotFound index)

/-- The sources that are left once a flow is removed, renumbered. -/
def dropSource (id : Nat) (inputs : List Source) : List Source :=
  (inputs.filter fun s => s.flow? ≠ some id).map (Source.renumber fun other =>
    if id < other then other - 1 else other)

/-- What is logged about a flow at a position that loses its references to a removed flow. -/
def lossNotes (removed : Flow) (id : Nat) (f : Flow) (position : Nat) : List LogLine :=
  let kept := dropSource id f.inputs
  let lost := f.inputs.length - kept.length
  if lost = 0 then []
  else
    ⟨.warn, s!"Flow '{f.label}' lost {lost} input(s) from removed flow '{removed.label}'"⟩ ::
      if kept.isEmpty then [⟨.warn, s!"Flow {position} '{f.label}' has no inputs left"⟩] else []

/-- Removes a flow together with all references to it. -/
def removeFlow (id : Nat) : Op Failure Graph Flow := do
  let g ← Op.get
  let removed ← Op.ofExcept (g.flow id)
  let others := g.flows.eraseIdx id
  Op.note (others.zipIdx.flatMap fun entry => lossNotes removed id entry.1 entry.2)
  Op.set { g with
    flows := others.map fun (f : Flow) => f.withInputs (dropSource id f.inputs) }.resetAll
  Op.say .info s!"Removed flow {id} '{removed.label}'"
  pure removed

/-- Copies the layers and sources of a flow into a new one right after it; nothing reads the
copy. -/
def duplicateFlow (id : Nat) : Op Failure Graph Nat := do
  let g ← Op.get
  let f ← Op.ofExcept (g.flow id)
  insertFlow (id + 1) (.fresh (f.label ++ " copy") f.inputs f.layers)

/-! ## Sources -/

/-- Names the reference that a caller wanted to add, should it close a cycle. -/
def nameEdge (id : Nat) (source : Source) : Failure → Failure
  | .cycle reader old =>
    match source with
    | .flow other => .cycle id other
    | .raw _ => .cycle reader old
  | e => e

/-- Adds a source to a flow. -/
def addInputSource (id : Nat) (source : Source) : Op Failure Graph Unit := do
  let g ← Op.get
  let f ← Op.ofExcept (g.flow id)
  Op.mapError (nameEdge id source)
    (editFlows fun flows => .ok (flows.set id (f.withInputs (f.inputs ++ [source]))))

/-- Removes a source from a flow by its position; the answer is the source. -/
def removeInputSource (id index : Nat) : Op Failure Graph Source := do
  let g ← Op.get
  let f ← Op.ofExcept (g.flow id)
  match f.inputs[index]? with
  | some source =>
    Op.set (g.setFlow id (f.withInputs (f.inputs.eraseIdx index))).resetAll
    pure source
  | none => Op.fail (.badSource (.noSuchInput id index))

/-! ## Work on a single flow -/

/-- Runs an operation on a flow next to some other state. -/
def onFlow {β α : Type} (id : Nat) (x : Op Failure (Flow × β) α) :
    Op Failure (Graph × β) α := do
  let (g, _) ← Op.get
  let f ← Op.ofExcept (g.flow id)
  Op.zoom (fun s => (f, s.2)) (fun t s => (s.1.setFlow id t.1, t.2)) x

/-- Hands out a flow for any work on it.  The analysis is forgotten, even if there is no such
flow. -/
def editFlow {β α : Type} (id : Nat) (x : Op Failure (Flow × β) α) :
    Op Failure (Graph × β) α := do
  Op.modify fun s => ({ s.1 with analysis := none }, s.2)
  onFlow id x

end LayerFlow.Graph
