/-
LayerFlow.Backend.Tape

A backend that records the nodes it is asked for and runs nothing.  It keeps the order that a
device would insist on: a node reads existing nodes only, and a gradient names the forward node
that it belongs to.

Main statements: `push_nodes`, a node is appended at the end and nothing else changes, and
`node?_push_of_lt`, recorded nodes stay.
-/
import LayerFlow.Backend

namespace LayerFlow

/-! ## Instructions -/

/-- One recorded node. -/
inductive Instruction where
  | readInput (slot : Nat)
  | forward (kernel : Kernel) (padding : PaddingPolicy) (source : Handle)
  | concat (sources : List Handle)
  | gradient (forward : Handle) (label : String) (source : Handle)
  | concatGradient (concatenation : Handle) (index : Nat) (source : Handle)
  | outputGradient (source : Handle)
  | accumulate (sources : List Handle)
deriving DecidableEq

namespace Instruction

/-- The name of a node. -/
def name : Instruction → String
  | .readInput slot => s!"ReadInput({slot})"
  | .forward kernel _ _ => kernel.label
  | .concat sources => s!"Concat({sources.length})"
  | .gradient _ label _ => label ++ "Gradient"
  | .concatGradient _ index _ => s!"ConcatGradient[{index}]"
  | .outputGradient _ => "OutputGradient"
  | .accumulate sources => s!"Accumulate({sources.length})"

/-- Whether a node belongs to the backward pass. -/
def isGradient : Instruction → Bool
  | .gradient _ _ _ | .concatGradient _ _ _ | .outputGradient _ | .accumulate _ => true
  | .readInput _ | .forward _ _ _ | .concat _ => false

/-- The nodes whose values a node reads. -/
def reads : Instruction → List Handle
  | .readInput _ => []
  | .forward _ _ source => [source]
  | .concat sources => sources
  | .gradient _ _ source => [source]
  | .concatGradient _ _ source => [source]
  | .outputGradient source => [source]
  | .accumulate sources => sources

end Instruction

/-! ## The tape -/

/-- The recorded nodes, and a text whose occurrence in a label makes the tape refuse a forward
kernel. -/
structure Tape where
  nodes : Array Instruction
  rejects : Option String
deriving DecidableEq

namespace Tape

/-- A tape without nodes. -/
def empty (rejects : Option String) : Tape := ⟨#[], rejects⟩

/-- The number of nodes. -/
def size (t : Tape) : Nat := t.nodes.size

/-- The node with a handle. -/
def node? (t : Tape) (h : Handle) : Option Instruction := t.nodes[h.index]?

/-- The number of nodes of the backward pass. -/
def gradientCount (t : Tape) : Nat := t.nodes.countP Instruction.isGradient

/-- Whether a text occurs in another. -/
def occursIn (text : List Char) : List Char → Bool
  | [] => text.isEmpty
  | c :: rest => text.isPrefixOf (c :: rest) || occursIn text rest

/-- Whether the tape refuses kernels with this label. -/
def refuses (t : Tape) (label : String) : Bool :=
  match t.rejects with
  | none => false
  | some text => occursIn text.toList label.toList

/-! ### Recording -/

/-- Appends a node. -/
def push {ε : Type} (instruction : Instruction) : Op ε Tape Handle := fun t =>
  ⟨.ok ⟨t.size⟩, { t with nodes := t.nodes.push instruction },
    [.debug s!"node {t.size} = {instruction.name}"]⟩

/-- Checks that a node exists. -/
def require (h : Handle) : Op BackendFault Tape Unit := fun t =>
  if h.index < t.size then ⟨.ok (), t, []⟩ else ⟨.error (.missingNode h.index), t, []⟩

/-- Checks that all nodes of a list exist, first to last. -/
def requireAll : List Handle → Op BackendFault Tape Unit
  | [] => pure ()
  | h :: rest => do
    require h
    requireAll rest

/-- Appends the node that reads a raw input. -/
def readInput {ε : Type} (slot : Nat) : Op ε Tape Handle := push (.readInput slot)

/-- Appends the nodes that read the first raw inputs. -/
def readInputs {ε : Type} (count : Nat) : Op ε Tape (List Handle) :=
  Op.forEach readInput (List.range count)

/-- Appends a forward kernel. -/
def appendForward (kernel : Kernel) (padding : PaddingPolicy) (input : Handle) :
    Op BackendFault (Tape × Option ParamStore) Handle := do
  Op.zoom Prod.fst (fun t s => (t, s.2)) (require input)
  let (t, store) ← Op.get
  if t.refuses kernel.label then Op.fail (.rejected kernel.label)
  else
    match kernel.kind, store with
    | .normalization kind _ _ _ _, some store =>
      Op.set (t, some (store.touchAll kind.parameterNames))
    | _, _ => pure ()
    Op.zoom Prod.fst (fun t s => (t, s.2)) (push (.forward kernel padding input))

/-- Appends the gradient of a forward kernel; the node named as its forward node has to be a
forward kernel with the same label. -/
def appendGradient (forward : Handle) (kernel : Kernel) (outputGradient : Handle) :
    Op BackendFault Tape Handle := do
  require outputGradient
  let t ← Op.get
  match t.node? forward with
  | some (.forward recorded _ _) =>
    if recorded.label = kernel.label then
      push (.gradient forward kernel.label outputGradient)
    else Op.fail (.noForwardNode forward.index kernel.label)
  | _ => Op.fail (.noForwardNode forward.index kernel.label)

/-- Appends a concatenation. -/
def appendConcatenation (inputs : List Handle) : Op BackendFault Tape Handle := do
  if inputs.isEmpty then Op.fail .nothingToConcatenate
  else
    requireAll inputs
    push (.concat inputs)

/-- Appends the gradients of a concatenation, one for each of its sources. -/
def appendConcatenationGradient (concatenation outputGradient : Handle) :
    Op BackendFault Tape (List Handle) := do
  require outputGradient
  let t ← Op.get
  match t.node? concatenation with
  | some (.concat sources) =>
    Op.forEach (fun index => push (.concatGradient concatenation index outputGradient))
      (List.range sources.length)
  | _ => Op.fail (.notConcatenation concatenation.index)

/-- Appends the gradient that the loss sends into an output. -/
def appendOutputGradient (output : Handle) : Op BackendFault Tape Handle := do
  require output
  push (.outputGradient output)

/-- Appends a sum of gradients; a single gradient is its own sum. -/
def appendAccumulation (gradients : List Handle) : Op BackendFault Tape Handle :=
  match gradients with
  | [] => Op.fail .nothingToAccumulate
  | [single] => do
    require single
    pure single
  | gradients => do
    requireAll gradients
    push (.accumulate gradients)

instance : Backend Tape where
  appendForward := appendForward
  appendGradient := appendGradient
  appendConcatenation := appendConcatenation
  appendConcatenationGradient := appendConcatenationGradient
  appendOutputGradient := appendOutputGradient
  appendAccumulation := appendAccumulation

/-! ### Laws -/

/-- A node is appended at the end, and its handle is its position. -/
theorem push_nodes {ε : Type} (instruction : Instruction) (t : Tape) :
    ((push instruction : Op ε Tape Handle).run t).result = .ok ⟨t.size⟩ ∧
      ((push instruction : Op ε Tape Handle).run t).state =
        { t with nodes := t.nodes.push instruction } := ⟨rfl, rfl⟩

/-- Recorded nodes stay. -/
theorem node?_push_of_lt {ε : Type} (instruction : Instruction) {t : Tape} {h : Handle}
    (hlt : h.index < t.size) :
    ((push instruction : Op ε Tape Handle).run t).state.node? h = t.node? h := by
  show (t.nodes.push instruction)[h.index]? = t.nodes[h.index]?
  rw [Array.getElem?_push]
  simp [Nat.ne_of_lt hlt, show t.nodes.size = t.size from rfl]

/-- The new node is found under its handle. -/
theorem node?_push_self {ε : Type} (instruction : Instruction) (t : Tape) :
    ((push instruction : Op ε Tape Handle).run t).state.node? ⟨t.size⟩ = some instruction := by
  show (t.nodes.push instruction)[t.nodes.size]? = some instruction
  simp

/-- Checking that a node exists changes nothing. -/
@[simp] theorem require_state (h : Handle) (t : Tape) : ((require h).run t).state = t := by
  unfold require Op.run
  dsimp only
  split <;> rfl

end Tape

end LayerFlow
