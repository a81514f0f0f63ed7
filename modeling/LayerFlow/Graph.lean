/-
LayerFlow.Graph

The document: raw inputs, flows that read them and each other, the settings, and the analysis
of the references as long as it is known.  The position of a flow is its id.

Main statements: `checkStructure_eq_ok_iff`, which references are accepted, and
`references_map`, changes that keep the sources keep the references.
-/
import LayerFlow.Config
import LayerFlow.Flow
import LayerFlow.Graph.References

namespace LayerFlow

/-! ## Types -/

/-- What the references of a graph amount to. -/
structure Analysis where
  /-- The flows that read no other flow. -/
  entryPoints : List Nat
  /-- The flows that no flow reads. -/
  exitPoints : List Nat
  /-- The order of evaluation. -/
  order : List Nat
  /-- The longest chain of references below each flow. -/
  levels : List Nat
deriving DecidableEq, Repr

/-- The analysis of references. -/
def References.analysis (refs : References) : Analysis :=
  ⟨entryPoints refs, exitPoints refs, order refs, levels refs⟩

/-- A graph of flows. -/
structure Graph where
  flows : List Flow
  rawInputs : List Shape
  config : Config
  analysis : Option Analysis
deriving DecidableEq

/-- The references between flows. -/
def referencesOf (flows : List Flow) : References := flows.map Flow.dependencies

namespace Graph

/-- A graph without flows, with the usual settings on a machine with some number of processors. -/
def empty (processors : Nat := 1) : Graph := ⟨[], [], .default processors, none⟩

/-- A graph without flows, with checked settings. -/
def withConfig (config : Config) : Except Failure Graph := do
  let config ← config.check
  return { empty with config := config }

/-! ## Questions -/

/-- The number of flows. -/
def size (g : Graph) : Nat := g.flows.length

/-- The flow with an id. -/
def flow (g : Graph) (id : Nat) : Except Failure Flow :=
  match g.flows[id]? with
  | some f => .ok f
  | none => .error (.flowNotFound id)

/-- The references between the flows of a graph. -/
def references (g : Graph) : References := referencesOf g.flows

/-- The flows that read a flow. -/
def consumers (g : Graph) (id : Nat) : List Nat := g.references.readers id

/-! ## Structure -/

/-- What is wrong with a source of the flow with an id, given the number of raw inputs and of
flows. -/
def sourceFault? (rawCount flowCount id : Nat) : Source → Option SourceFault
  | .raw slot => if slot < rawCount then none else some (.rawOutOfRange id slot rawCount)
  | .flow other => if other < flowCount then none else some (.flowOutOfRange id other)

/-- The first source that points nowhere, by flow and then by position. -/
def firstFault? (rawCount : Nat) (flows : List Flow) : Option SourceFault :=
  flows.zipIdx.findSome? fun entry =>
    entry.1.inputs.findSome? (sourceFault? rawCount flows.length entry.2)

/-- Checks that all sources exist and that no flow reads itself, directly or through others. -/
def checkStructure (rawCount : Nat) (flows : List Flow) : Except Failure Unit :=
  match firstFault? rawCount flows with
  | some fault => .error (.badSource fault)
  | none =>
    match (referencesOf flows).closingEdge? with
    | some (reader, source) => .error (.cycle reader source)
    | none => .ok ()

/-- A graph from its parts, if settings and references are in order. -/
def ofParts (rawInputs : List Shape) (flows : List Flow) (config : Config) :
    Except Failure Graph := do
  let config ← config.check
  checkStructure rawInputs.length flows
  return ⟨flows, rawInputs, config, none⟩

/-- Forgets the analysis and every build. -/
def resetAll (g : Graph) : Graph :=
  { g with flows := g.flows.map Flow.reset, analysis := none }

/-- Replaces a flow. -/
def setFlow (g : Graph) (id : Nat) (f : Flow) : Graph :=
  { g with flows := g.flows.set id f }

/-- A list of numbers between brackets. -/
def listText (ns : List Nat) : String :=
  "[" ++ ", ".intercalate (ns.map fun n => toString n) ++ "]"

/-- Analyses the references and keeps the result. -/
def verify : Op Failure Graph Analysis := do
  let g ← Op.get
  Op.ofExcept (checkStructure g.rawInputs.length g.flows)
  let analysis := g.references.analysis
  Op.say .debug s!"Execution order: {listText analysis.order}"
  Op.set { g with analysis := some analysis }
  pure analysis

/-- The analysis that is known, or a new one. -/
def ensureVerified : Op Failure Graph Analysis := do
  let g ← Op.get
  match g.analysis with
  | some analysis => pure analysis
  | none => verify

/-! ## Laws -/

/-- Accepted are exactly the references that point somewhere and close no cycle. -/
theorem checkStructure_eq_ok_iff {rawCount : Nat} {flows : List Flow} :
    checkStructure rawCount flows = .ok () ↔
      firstFault? rawCount flows = none ∧ (referencesOf flows).closingEdge? = none := by
  unfold checkStructure
  split
  · next h => simp [h]
  · next h =>
    split
    · next h' => simp [h']
    · next h' => simp [h, h']

/-- Changes of flows that keep their sources keep the references. -/
theorem references_map (flows : List Flow) (change : Flow → Flow)
    (h : ∀ f, (change f).inputs = f.inputs) :
    referencesOf (flows.map change) = referencesOf flows := by
  simp [referencesOf, Flow.dependencies, Function.comp_def, h]

@[simp] theorem references_resetAll (g : Graph) : g.resetAll.references = g.references :=
  references_map g.flows Flow.reset fun _ => rfl

end Graph

end LayerFlow
