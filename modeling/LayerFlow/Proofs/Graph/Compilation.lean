/-
LayerFlow.Proofs.Graph.Compilation

Forward compilation in closed form: the nodes that a document asks for, flow by flow in the order
of evaluation, each node under the number that comes next on the tape.  A forward build on the
tape appends these nodes and no others, and every flow keeps the handles of its own.

Main statement: `buildForwardAll_compiles`.
-/
import LayerFlow.Proofs.Backend.Recording
import LayerFlow.Proofs.Graph.Backward
import LayerFlow.Proofs.Graph.Forward

namespace LayerFlow

open Op

/-! ## Compiling one flow -/

/-- The handle that a source stands for: that of its raw input, or the output of its flow. -/
def Source.handle? (raw outputs : List Handle) : Source → Option Handle
  | .raw slot => raw[slot]?
  | .flow id => outputs[id]?

/-- What a flow adds to a tape, and the handles that the flow keeps. -/
structure Segment where
  nodes : List Instruction
  handles : ForwardNodes

namespace Flow

/-- The kernels of layers on their input shapes.  The first one reads the given node, every other
one the kernel before it. -/
def compileLayers : List (Layer × Shape) → (source : Handle) → (next : Nat) →
    Option (List Instruction)
  | [], _, _ => some []
  | (l, shape) :: rest, source, next => do
    let kernel ← (l.kernel shape).toOption
    let more ← compileLayers rest ⟨next⟩ (next + 1)
    return .forward kernel l.padding source :: more

/-- The concatenation of several sources and the contraction that reads it, what the flow keeps
of them, and the node that the layers start from.  A single source takes no nodes. -/
def compileFusion (f : Flow) (alignment : Nat) (sources : List Handle) (next : Nat) :
    Option (List Instruction × Option FusionNodes × Handle) :=
  match sources with
  | [source] => some ([], none, source)
  | sources => do
    let plan ← (f.fusionPlan alignment).toOption
    let kernel ← (plan.contraction f.shapes.input).toOption
    return ([.concat sources, .forward kernel .validOnly ⟨next⟩],
      some ⟨⟨next⟩, ⟨next + 1⟩, kernel, sources.length⟩, ⟨next + 1⟩)

/-- The nodes of a flow: the fusion of its sources in the order of declaration, and then one
kernel for each layer. -/
def compile (f : Flow) (raw outputs : List Handle) (alignment next : Nat) : Option Segment := do
  let sources ← f.inputs.mapM (Source.handle? raw outputs)
  let (fused, fusion, start) ← f.compileFusion alignment sources next
  let first := next + fused.length
  let layers ← compileLayers (f.layers.zip f.shapes.layerInputs) start first
  let handles := (List.range' first layers.length).map Handle.mk
  return ⟨fused ++ layers, ⟨sources, fusion, handles, handles.getLast?.getD start⟩⟩

/-- The number of nodes of a flow. -/
def nodeCount (f : Flow) : Nat := (if 2 ≤ f.inputs.length then 2 else 0) + f.layers.length

end Flow

/-- The nodes of some flows one after the other. -/
def Graph.compile (g : Graph) (raw outputs : List Handle) : (order : List Nat) → (next : Nat) →
    Option (List Segment)
  | [], _ => some []
  | id :: rest, next => do
    let f ← g.flows[id]?
    let segment ← f.compile raw outputs g.config.channelAlignment next
    let more ← g.compile raw outputs rest (next + segment.nodes.length)
    return segment :: more

/-! ## Requests and nodes -/

namespace Flow

variable {raw outputs : List Handle} {alignment next : Nat}

theorem toOption_sourceHandle (s : Source) :
    (sourceHandle raw (outputs.map some) s).toOption = s.handle? raw outputs := by
  cases s with
  | raw slot =>
    rw [sourceHandle, Source.handle?]
    cases raw[slot]? <;> rfl
  | flow id =>
    rw [sourceHandle, Source.handle?, List.getElem?_map]
    cases outputs[id]? <;> rfl

/-- Requests for the kernels of layers that leave numbered nodes leave those of the layers. -/
theorem ForwardCalls.compileLayers_eq {layers : List Layer} {shapes : List Shape}
    {start : Handle} {handles : List Handle} {calls : List Call}
    (h : ForwardCalls layers shapes start handles calls) {nodes : List Instruction}
    (hnodes : Tape.numbered next nodes = calls.flatMap Call.records) :
    compileLayers (layers.zip shapes) start next = some nodes ∧
      handles = (List.range' next nodes.length).map Handle.mk := by
  induction h generalizing next nodes with
  | nil start =>
    obtain rfl := Tape.numbered_eq_nil_iff.mp hnodes
    exact ⟨rfl, rfl⟩
  | @cons l layers shape shapes kernel start node handles calls hkernel hrest ih =>
    -- The first node is that of the first layer, and the others go on from its number.
    obtain ⟨more, rfl, rfl, hmore⟩ := Tape.numbered_eq_cons_iff.mp hnodes
    obtain ⟨hlayers, rfl⟩ := ih hmore
    refine ⟨?_, rfl⟩
    rw [List.zip_cons_cons, compileLayers, hkernel, hlayers]
    rfl

/-- Requests for a fusion that leave numbered nodes leave those of the fusion. -/
theorem FusionCalls.compileFusion_eq {f : Flow} {sources : List Handle}
    {fusion : Option FusionNodes} {start : Handle} {calls : List Call}
    (h : FusionCalls f alignment sources fusion start calls) {nodes : List Instruction}
    (hnodes : Tape.numbered next nodes = calls.flatMap Call.records) :
    f.compileFusion alignment sources next = some (nodes, fusion, start) ∧
      nodes.length = if 2 ≤ sources.length then 2 else 0 := by
  cases h with
  | single source =>
    obtain rfl := Tape.numbered_eq_nil_iff.mp hnodes
    exact ⟨rfl, rfl⟩
  | @several _ plan fusion hsources hplan hkernel hcount =>
    obtain ⟨concatenation, contraction, kernel, count⟩ := fusion
    obtain ⟨_, rfl, rfl, hsecond⟩ := Tape.numbered_eq_cons_iff.mp hnodes
    obtain ⟨_, rfl, rfl, hnil⟩ := Tape.numbered_eq_cons_iff.mp hsecond
    obtain rfl := Tape.numbered_eq_nil_iff.mp hnil
    obtain rfl : count = sources.length := hcount
    have hkernel : plan.contraction f.shapes.input = .ok kernel := hkernel
    refine ⟨?_, by rw [if_pos hsources]; rfl⟩
    -- One source alone would take the other branch.
    have hmany : ∀ source, sources ≠ [source] := by
      rintro source rfl
      simp at hsources
    rw [compileFusion, hplan]
    · simp [Except.toOption, hkernel]
    · exact hmany

/-- The requests of a forward build that leave numbered nodes leave those that the flow compiles
to. -/
theorem BuildForwardCalls.compile_eq {f : Flow} {forward : ForwardNodes} {calls : List Call}
    (h : BuildForwardCalls f raw (outputs.map some) alignment forward calls)
    {nodes : List Instruction} (hnodes : Tape.numbered next nodes = calls.flatMap Call.records) :
    f.compile raw outputs alignment next = some ⟨nodes, forward⟩ ∧
      nodes.length = f.nodeCount := by
  cases h with
  | @intro sources handles fusion start fusionCalls layerCalls hsources hfusion hlayers =>
    rw [List.flatMap_append] at hnodes
    obtain ⟨fused, kernels, rfl, hfused, hkernels⟩ := Tape.numbered_eq_append_iff.mp hnodes
    obtain ⟨hfusionEq, hlength⟩ := hfusion.compileFusion_eq hfused
    obtain ⟨hlayersEq, rfl⟩ := hlayers.compileLayers_eq hkernels
    have hfound : f.inputs.mapM (Source.handle? raw outputs) = some sources := by
      rw [← Traversal.toOption_mapM fun s => toOption_sourceHandle s, hsources]
      rfl
    constructor
    · simp [compile, hfound, hfusionEq, hlayersEq]
    · have hkernelCount := hlayers.length_nodes
      rw [List.length_map, List.length_range'] at hkernelCount
      rw [List.length_append, hlength, hkernelCount, nodeCount,
        Traversal.length_of_mapM_eq_ok hsources]

end Flow

namespace Graph

/-- Flows that are built one after the other leave the nodes that they compile to one after the
other. -/
theorem compile_eq_of_builds {g : Graph} {raw outputs : List Handle} {steps : List ForwardStep}
    (hbuilds : ∀ s ∈ steps, s.Builds raw (outputs.map some) g.config.channelAlignment)
    (hflows : ∀ s ∈ steps, g.flows[s.id]? = some s.flow) {next : Nat} {nodes : List Instruction}
    (hnodes : Tape.numbered next nodes = (steps.flatMap ForwardStep.own).flatMap Call.records) :
    ∃ segments, g.compile raw outputs (steps.map ForwardStep.id) next = some segments ∧
      nodes = segments.flatMap Segment.nodes ∧
      List.Forall₂ (fun s segment => segment.handles = s.forward ∧
        segment.nodes.length = s.flow.nodeCount) steps segments := by
  induction steps generalizing next nodes with
  | nil =>
    cases nodes with
    | nil => exact ⟨[], rfl, rfl, .nil⟩
    | cons node nodes => cases hnodes
  | cons s steps ih =>
    rw [List.forall_mem_cons] at hbuilds hflows
    rw [List.flatMap_cons, List.flatMap_append] at hnodes
    obtain ⟨own, others, rfl, hown, hothers⟩ := Tape.numbered_eq_append_iff.mp hnodes
    obtain ⟨hcompile, hlength⟩ := hbuilds.1.own.compile_eq hown
    obtain ⟨segments, hsegments, rfl, hall⟩ := ih hbuilds.2 hflows.2 hothers
    refine ⟨⟨own, s.forward⟩ :: segments, ?_, rfl, .cons ⟨rfl, hlength⟩ hall⟩
    rw [List.map_cons, compile, hflows.1]
    simp [hcompile, hsegments]

/-! ## A forward build on the tape -/

/-- What a forward build on the tape amounts to: the flows of the document, each of them once,
compiled in the order of evaluation. -/
structure Compiled (g g' : Graph) (t t' : Tape) (raw outputs : List Handle)
    (segments : List Segment) : Prop where
  order : g.references.order.Perm (List.range g.size)
  compile : g.compile raw outputs g.references.order t.size = some segments
  nodes : t'.nodes.toList = t.nodes.toList ++ segments.flatMap Segment.nodes
  length_outputs : outputs.length = g.size
  flows : List.Forall₂ (fun id segment => ∃ f f', g.flows[id]? = some f ∧
    g'.flows[id]? = some f' ∧ f'.state = .forwardBuilt segment.handles ∧
    outputs[id]? = some segment.handles.output ∧ segment.nodes.length = f.nodeCount)
    g.references.order segments

/-- A forward build on the tape is the same build under observation, and the nodes it adds are
those of the requests. -/
theorem yields_buildForwardAll_observed {g g' : Graph} {t t' : Tape} {raw outputs : List Handle}
    (hrun : (buildForwardAll raw).Yields (g, t) outputs (g', t')) :
    ∃ o' : Observed Tape,
      (buildForwardAll raw).Yields (g, (⟨t, []⟩ : Observed Tape)) outputs (g', o') ∧
      t'.records = t.records ++ o'.calls.flatMap Call.records := by
  obtain ⟨⟨g₁, o'⟩, hobserved, heq, rfl⟩ :=
    (related_buildForwardAll Observed.alike raw).yields_left (s := (g, ⟨t, []⟩)) ⟨rfl, rfl⟩ hrun
  obtain rfl : g₁ = g' := heq
  have hstart : Observed.Recorded t.records ⟨t, []⟩ := ⟨(List.append_nil _).symm, by simp⟩
  obtain ⟨_, -, -, -, hrecorded⟩ := (related_buildForwardAll Observed.alike_recorded raw).yields
    (s := (g, ⟨t, []⟩)) ⟨rfl, rfl, hstart⟩ hobserved
  exact ⟨o', hobserved, hrecorded.records⟩

/-- A forward build on the tape that succeeds appends what the document compiles to and nothing
else: for several sources one concatenation and one contraction, for every layer one kernel.  Each
flow keeps the handles of its nodes, and the last of them is its output. -/
theorem buildForwardAll_compiles {s s' : Graph × Tape} (h : s.1.Reachable)
    {raw outputs : List Handle} (hrun : (buildForwardAll raw).Yields s outputs s') :
    ∃ segments, Compiled s.1 s'.1 s.2 s'.2 raw outputs segments := by
  obtain ⟨g, t⟩ := s
  obtain ⟨g', t'⟩ := s'
  obtain ⟨o', hobserved, hrecords⟩ := yields_buildForwardAll_observed hrun
  obtain ⟨steps, hsteps, hcalls⟩ := h.wellFormed.builtForward hobserved
  rw [List.nil_append] at hcalls
  rw [hcalls] at hrecords
  obtain ⟨nodes, hnodes, hnumbered⟩ := Tape.exists_of_records_eq_append hrecords
  obtain ⟨segments, hcompile, rfl, hall⟩ :=
    compile_eq_of_builds hsteps.builds hsteps.before hnumbered
  have hsound := h.wellFormed.sound
  refine ⟨segments, {
    order := length_references g ▸
      References.order_perm hsound.acyclic_references hsound.inRange_references
    compile := hsteps.order ▸ hcompile
    nodes := hnodes
    length_outputs := hsteps.length_outputs
    flows := ?_ }⟩
  -- The segment of a flow has the handles of its step.
  rw [← hsteps.order, List.forall₂_map_left_iff]
  refine (List.forall₂_iff_zip.mpr ⟨hall.length_eq, fun {step segment} hmem => ?_⟩)
  obtain ⟨hhandles, hlength⟩ := (List.forall₂_iff_zip.mp hall).2 hmem
  have hstep := (List.of_mem_zip hmem).1
  refine ⟨step.flow, step.after, hsteps.before step hstep, hsteps.after step hstep, ?_, ?_,
    hlength⟩
  · rw [hhandles]
    rfl
  · rw [hhandles]
    exact hsteps.output step hstep

/-- The document with a shared flow: one kernel for the shared flow, none for the flow without
layers, and three nodes for the flow with two sources. -/
theorem buildForwardAll_compiles_diamond : ∃ segments,
    Compiled (inferAll.run diamond).state diamondForward.1 ⟨#[.readInput 0], none⟩
      diamondForward.2 [⟨0⟩] [⟨1⟩, ⟨1⟩, ⟨2⟩, ⟨5⟩] segments ∧
    segments.map (fun segment => segment.nodes.length) = [1, 0, 1, 3] := by
  have hok : ((buildForwardAll [⟨0⟩]).run ((inferAll.run diamond).state,
      (⟨#[.readInput 0], none⟩ : Tape))).result = .ok [⟨1⟩, ⟨1⟩, ⟨2⟩, ⟨5⟩] := by
    decide +kernel
  obtain ⟨segments, hcompiled⟩ :=
    buildForwardAll_compiles (reachable_diamond.step (.inferAll _)) (yields_of_result hok)
  have hcounts : ((inferAll.run diamond).state.compile [⟨0⟩] [⟨1⟩, ⟨1⟩, ⟨2⟩, ⟨5⟩]
      (inferAll.run diamond).state.references.order 1).map
        (fun segments => segments.map fun segment => segment.nodes.length) =
      some [1, 0, 1, 3] := by
    decide +kernel
  have hcompile := hcompiled.compile
  rw [show (⟨#[.readInput 0], none⟩ : Tape).size = 1 from rfl] at hcompile
  rw [hcompile] at hcounts
  exact ⟨segments, hcompiled, Option.some.inj hcounts⟩

end Graph

end LayerFlow
