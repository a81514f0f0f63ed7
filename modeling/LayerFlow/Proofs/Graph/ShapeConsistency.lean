/-
LayerFlow.Proofs.Graph.ShapeConsistency

The shapes on the tape.  Give every handle that reads a raw input the shape of the input, and
every forward node the shape that its kernel makes.  After a complete build these shapes fit: a
kernel takes in the shape of its source, the contraction of several sources takes in their padded
stack, and each flow ends with the shape that inference found for it.

Main statement: `buildAll_shapeConsistent`.
-/
import LayerFlow.Proofs.Flow.Chained
import LayerFlow.Proofs.Graph.Mirror

namespace LayerFlow.Graph

open Op Traversal

/-! ## Shapes of nodes -/

/-- The shape of a handle: that of the raw input it is given for, or that which its kernel
makes. -/
def shapeAt (g : Graph) (raw : List Handle) (t : Tape) (h : Handle) : Option Shape :=
  match raw.idxOf? h with
  | some slot => g.rawInputs[slot]?
  | none =>
    match t.node? h with
    | some (.forward kernel _ _) => some kernel.output
    | _ => none

/-- The handles given for the raw inputs are nodes of their own that read inputs. -/
structure ReadsInputs (raw : List Handle) (t : Tape) : Prop where
  nodup : raw.Nodup
  node : ∀ h ∈ raw, ∃ slot, t.node? h = some (.readInput slot)

theorem ReadsInputs.mono {raw : List Handle} {t t' : Tape} (h : ReadsInputs raw t)
    (hkept : t.records ⊆ t'.records) : ReadsInputs raw t' := by
  refine ⟨h.nodup, fun handle hmem => ?_⟩
  obtain ⟨slot, hnode⟩ := h.node handle hmem
  exact ⟨slot, Tape.mem_records_iff.mp (hkept (Tape.mem_records_iff.mpr hnode))⟩

section

variable {g : Graph} {raw : List Handle} {t : Tape}

theorem shapeAt_raw (hraw : ReadsInputs raw t) {slot : Nat} {h : Handle}
    (hslot : raw[slot]? = some h) : g.shapeAt raw t h = g.rawInputs[slot]? := by
  obtain ⟨hlt, rfl⟩ := List.getElem?_eq_some_iff.mp hslot
  have hfound : raw.idxOf? raw[slot] = some slot := by
    rw [List.idxOf?_eq_some_iff]
    refine ⟨hlt, rfl, fun other hother heq => ?_⟩
    exact absurd ((hraw.nodup.getElem_inj_iff).mp heq) (Nat.ne_of_lt hother)
  rw [shapeAt, hfound]

/-- Only nodes that read inputs are given for raw inputs. -/
theorem idxOf?_eq_none (hraw : ReadsInputs raw t) {h : Handle} {instruction : Instruction}
    (hnode : t.node? h = some instruction) (hother : ∀ slot, instruction ≠ .readInput slot) :
    raw.idxOf? h = none := by
  rw [List.idxOf?_eq_none_iff]
  intro hmem
  obtain ⟨slot, hinput⟩ := hraw.node h hmem
  rw [hnode] at hinput
  exact hother slot (Option.some.inj hinput)

theorem shapeAt_forward (hraw : ReadsInputs raw t) {h source : Handle} {kernel : Kernel}
    {padding : PaddingPolicy} (hnode : t.node? h = some (.forward kernel padding source)) :
    g.shapeAt raw t h = some kernel.output := by
  rw [shapeAt, idxOf?_eq_none hraw hnode (by simp), hnode]

/-- A concatenation has no shape of its own. -/
theorem shapeAt_concat (hraw : ReadsInputs raw t) {h : Handle} {sources : List Handle}
    (hnode : t.node? h = some (.concat sources)) : g.shapeAt raw t h = none := by
  rw [shapeAt, idxOf?_eq_none hraw hnode (by simp), hnode]

end

/-! ## Documents within bounds -/

/-- A document whose numbers fit: the known shapes of its inputs have no negative numbers, and the
sizes of layers and of padded fusions fit a signed extent. -/
structure Bounded (g : Graph) : Prop where
  rawInputs : ∀ s ∈ g.rawInputs, s.Regular
  layers : ∀ f ∈ g.flows, ∀ l ∈ f.layers, l.Bounded
  fusions : ∀ id shapes, g.eval id = .ok shapes → 2 ≤ shapes.sources.length →
    Shape.paddedTotal g.config.channelAlignment shapes.sources < 0x8000000000000000

/-- In such a document all shapes that flows read and make are regular. -/
theorem Bounded.regular_evalWithin {g : Graph} (h : g.Bounded) {depth id : Nat}
    {shapes : FlowShapes} (heval : g.evalWithin depth id = .ok shapes) :
    (∀ s ∈ shapes.sources, s.Regular) ∧ shapes.output.Regular := by
  refine forall_evalWithin h.rawInputs (fun f hf shapes hfits hsources => ?_) heval
  exact (Flow.regular_chain (h.layers f hf) (Shape.regular_combine hsources hfits.combine)
    hfits.chain).2

/-! ## The shapes of a build -/

/-- The channels that a convolution announces are those of its shapes, and fixed weights go from
every channel to every other. -/
def ChannelsFit (kernel : Kernel) : Prop :=
  ∀ kind size stride inChannels outChannels bias weights,
    kernel.kind = .convolution kind size stride inChannels outChannels bias weights →
    (inChannels : Int) = kernel.input.channels ∧ (outChannels : Int) = kernel.output.channels ∧
      ∀ ws, weights = some ws → ws.length = inChannels * outChannels

/-- A kernel on a concatenation is the contraction of a flow: it takes in the padded stack of the
sources, and makes the input of the layers. -/
def OfFusion (g g' : Graph) (raw : List Handle) (t : Tape) (node source : Handle)
    (sources : List Handle) (kernel : Kernel) : Prop :=
  ∃ f ∈ g'.flows, ∃ forward gradients nodes,
    f.state = .backwardBuilt forward gradients ∧ forward.inputs = sources ∧
    forward.fusion = some nodes ∧ nodes.concatenation = source ∧ nodes.contraction = node ∧
    List.Forall₂ (fun h s => g.shapeAt raw t h = some s) sources f.shapes.sources ∧
    IsContraction g.config.channelAlignment f.shapes.sources kernel ∧
    kernel.output = f.shapes.input

/-- The shapes of the nodes that a build appends fit each other and the flows. -/
structure ShapeConsistent (g g' : Graph) (raw outputs : List Handle) (t t' : Tape) : Prop where
  /-- A kernel takes in the shape of its source. -/
  chained : ∀ node kernel padding source,
    (node, .forward kernel padding source) ∈ appended t t' →
    (∀ sources, t'.node? source ≠ some (.concat sources)) →
    g.shapeAt raw t' source = some kernel.input
  /-- A kernel on a concatenation takes in the padded stack of what is concatenated. -/
  fused : ∀ node kernel padding source sources,
    (node, .forward kernel padding source) ∈ appended t t' →
    t'.node? source = some (.concat sources) →
    OfFusion g g' raw t' node source sources kernel
  channels : ∀ node kernel padding source,
    (node, .forward kernel padding source) ∈ appended t t' → ChannelsFit kernel
  /-- Each flow has one handle, with the shape that was found for its output. -/
  length_outputs : outputs.length = g'.flows.length
  outputs : ∀ (id : Nat) (f : Flow), g'.flows[id]? = some f → ∃ h, outputs[id]? = some h ∧
    g.shapeAt raw t' h = some f.shapes.output

/-! ## Nodes of the build -/

/-- The kernel of a forward node, with everything the node names. -/
def kernelOf : Handle × Instruction → Option (Handle × Kernel × PaddingPolicy × Handle)
  | (node, .forward kernel padding source) => some (node, kernel, padding, source)
  | _ => none

theorem eq_of_mem_kernelOf {call : Call} {node source : Handle} {kernel : Kernel}
    {padding : PaddingPolicy}
    (h : (node, kernel, padding, source) ∈ call.records.filterMap kernelOf) :
    call = .forward kernel padding source node := by
  cases call with
  | forward kernel' padding' source' answer =>
    cases List.mem_singleton.mp h
    rfl
  | concatenationGradient concatenation source answers =>
    rw [Call.filterMap_parts_eq_nil fun _ _ => rfl] at h
    cases h
  | outputGradient | accumulation =>
    rw [Call.filterMap_eq_nil_of_isTransfer rfl (fun _ _ => rfl) fun _ _ => rfl] at h
    cases h
  | concatenation | gradient | refused => cases h

theorem kernelOf_eq_nil {c d : Call} (h : Call.Mirrors c d) :
    d.records.filterMap kernelOf = [] := by
  cases h with
  | kernel => rfl
  | concatenation => exact Call.filterMap_parts_eq_nil fun _ _ => rfl

namespace TapeBuild

variable {g g' : Graph} {t t' : Tape} {answers : List (Option Handle)}

/-- A kernel that the build appends was asked for by a flow. -/
theorem exists_of_forward (b : TapeBuild g g' t t' answers) {node source : Handle}
    {kernel : Kernel} {padding : PaddingPolicy}
    (h : (node, .forward kernel padding source) ∈ appended t t') :
    ∃ s ∈ b.forwards, .forward kernel padding source node ∈ s.own := by
  have hview : (node, kernel, padding, source) ∈ (appended t t').filterMap kernelOf :=
    List.mem_filterMap.mpr ⟨_, h, rfl⟩
  obtain ⟨s, hs, call, hcall, hmem⟩ :=
    b.exists_call (fun _ _ => rfl) (fun _ _ => rfl) (fun _ _ h => kernelOf_eq_nil h) hview
  exact ⟨s, hs, eq_of_mem_kernelOf hmem ▸ hcall⟩

/-- The tape finds the nodes that a flow asked for. -/
theorem node?_of_own (b : TapeBuild g g' t t' answers) {s : ForwardStep} (hs : s ∈ b.forwards)
    {call : Call} (hcall : call ∈ s.own) {node : Handle} {instruction : Instruction}
    (hrecord : (node, instruction) ∈ call.records) : t'.node? node = some instruction := by
  have hnodes := b.infix_appended (b.infix_own_forward hs)
  have hmem := hnodes.subset (List.mem_flatMap.mpr ⟨call, hcall, hrecord⟩)
  exact Tape.mem_records_iff.mp (List.mem_of_mem_drop hmem)

/-- A flow is built forward with the shapes that the document gives it. -/
theorem evaluated (b : TapeBuild g g' t t' answers) {s : ForwardStep} (hs : s ∈ b.forwards) :
    ∃ f shapes, g.flows[s.id]? = some f ∧ g.eval s.id = .ok shapes ∧
      s.flow = f.withShapes shapes := by
  have hflow := b.forward.before s hs
  have hlt : s.id < g.size := by
    rw [size, ← b.settled.1.length]
    exact (List.getElem?_eq_some_iff.mp hflow).1
  obtain ⟨_, hstored, hevaluated⟩ := b.settled.2 s.id hlt
  rw [hflow] at hstored
  cases hstored
  exact hevaluated

/-- The flow of a step after all builds. -/
theorem exists_final (b : TapeBuild g g' t t' answers) {s : ForwardStep} (hs : s ∈ b.forwards) :
    ∃ f gradients, g'.flows[s.id]? = some f ∧ f.state = .backwardBuilt s.forward gradients ∧
      f.shapes = s.flow.shapes := by
  obtain ⟨k, hk, hid, hflow, hforward⟩ := b.exists_backward hs
  obtain ⟨-, hfinal, -⟩ := b.routed.built k hk
  refine ⟨k.after, k.gradients, hid ▸ hfinal, by rw [← hforward]; rfl, ?_⟩
  rw [BackwardStep.after, hflow]
  rfl

end TapeBuild

/-! ## Shapes along the order of the build -/

/-- The handle of a flow has the shape that the document gives to the output. -/
def OutputShaped (g : Graph) (raw outputs : List Handle) (t : Tape) (id : Nat) : Prop :=
  ∀ h shapes, outputs[id]? = some h → g.eval id = .ok shapes →
    g.shapeAt raw t h = some shapes.output

/-- The handle that a source is built on has the shape that the document gives to the source. -/
theorem shapeAt_sourceHandle {g : Graph} {raw outputs : List Handle} {t : Tape}
    (hraw : ReadsInputs raw t) {source : Source}
    (hflow : ∀ id, source = .flow id → g.OutputShaped raw outputs t id) {h : Handle}
    {shape : Shape} (hhandle : Flow.sourceHandle raw (outputs.map some) source = .ok h)
    (hshape : g.sourceShape g.eval source = .ok shape) : g.shapeAt raw t h = some shape := by
  cases source with
  | raw slot =>
    have hslot := Flow.sourceHandle_raw_eq_ok_iff.mp hhandle
    rw [shapeAt_raw hraw hslot]
    exact sourceShape_raw_eq_ok_iff.mp hshape
  | flow id =>
    have houtput := Flow.sourceHandle_flow_eq_ok_iff.mp hhandle
    rw [List.getElem?_map] at houtput
    obtain ⟨_, houtput, heq⟩ := Option.map_eq_some_iff.mp houtput
    obtain ⟨shapes, heval, rfl⟩ := sourceShape_flow_eq_ok_iff.mp hshape
    exact hflow id rfl h shapes (Option.some.inj heq ▸ houtput) heval

namespace TapeBuild

variable {g g' : Graph} {t t' : Tape} {answers : List (Option Handle)}

/-- The kernels that a flow asks for leave nodes with their shapes. -/
theorem leavesShapes (b : TapeBuild g g' t t' answers) (hraw : ReadsInputs b.raw t')
    {s : ForwardStep} (hs : s ∈ b.forwards) :
    Flow.LeavesShapes (g.shapeAt b.raw t') s.own := fun _ _ _ _ hcall =>
  shapeAt_forward hraw (b.node?_of_own hs hcall (List.mem_singleton_self _))

/-- A flow is built on handles with the shapes it was inferred from, once those it reads have
theirs. -/
theorem shaped (b : TapeBuild g g' t t' answers) (hbounded : g.Bounded)
    (hraw : ReadsInputs b.raw t') {s : ForwardStep} (hs : s ∈ b.forwards)
    (hsources : ∀ id, g.references.Reads s.id id → g.OutputShaped b.raw b.outputs t' id) :
    s.flow.Shaped (g.shapeAt b.raw t') g.config.channelAlignment s.forward.inputs := by
  obtain ⟨f, shapes, hf, heval, hflow⟩ := b.evaluated hs
  obtain ⟨-, hown, hresolved⟩ := b.forward.builds s hs
  have hdenote := heval
  rw [eval_eq b.sound hf] at hdenote
  obtain ⟨-, hshapes, hcombine, hchain⟩ :=
    Flow.evaluate_eq_ok_iff.mp (Flow.evaluate_of_denote hdenote)
  have hhandles := hown.mapM_inputs
  rw [hflow] at hhandles hresolved ⊢
  have hpaired : List.Forall₂ (fun h shape => g.shapeAt b.raw t' h = some shape) s.forward.inputs
      shapes.sources := by
    refine forall₂_of_mapM hhandles hshapes fun source hsource h shape hh hshape => ?_
    refine shapeAt_sourceHandle hraw (fun id heq => hsources id ?_) hh hshape
    exact reads_iff.mpr ⟨f, hf, heq ▸ hsource⟩
  exact {
    sources := hpaired
    combine := hcombine
    chain := hchain
    resolved := hresolved
    regular := (hbounded.regular_evalWithin heval).1
    bounded := hbounded.layers f (List.mem_of_getElem? hf)
    fits := fun hmany => hbounded.fusions s.id shapes heval (hpaired.length_eq ▸ hmany) }

/-- Every flow ends on a handle with the shape that the document gives to its output. -/
theorem outputShaped (b : TapeBuild g g' t t' answers) (hbounded : g.Bounded)
    (hraw : ReadsInputs b.raw t') (id : Nat) : g.OutputShaped b.raw b.outputs t' id := by
  -- What a flow reads lies on a lower level.
  induction hlevel : g.references.level id using Nat.strongRecOn generalizing id with
  | ind level ih =>
    intro h shapes houtput heval
    have hlt : id < g.size := b.length_outputs ▸ (List.getElem?_eq_some_iff.mp houtput).1
    obtain ⟨s, hs, rfl⟩ := b.exists_step hlt
    have hshaped := b.shaped hbounded hraw hs fun other hread =>
      ih _ (hlevel ▸ References.level_lt_of_reads b.sound.acyclic_references
        b.sound.inRange_references hread) other rfl
    obtain ⟨-, hown, -⟩ := b.forward.builds s hs
    rw [b.config] at hown
    rw [b.forward.output s hs] at houtput
    cases houtput
    obtain ⟨f, found, -, hfound, hflow⟩ := b.evaluated hs
    rw [heval] at hfound
    cases hfound
    have hlast := (hown.chained hshaped (b.leavesShapes hraw hs)).1
    rw [hflow] at hlast
    exact hlast

/-- A kernel that the build appends is that of a layer, or the contraction of a flow. -/
theorem kernel_cases (b : TapeBuild g g' t t' answers) (hbounded : g.Bounded)
    (hraw : ReadsInputs b.raw t') {node source : Handle} {kernel : Kernel}
    {padding : PaddingPolicy} (h : (node, .forward kernel padding source) ∈ appended t t') :
    Flow.OfLayer (g.shapeAt b.raw t') kernel source ∨
      ∃ sources, t'.node? source = some (.concat sources) ∧
        OfFusion g g' b.raw t' node source sources kernel := by
  obtain ⟨s, hs, hcall⟩ := b.exists_of_forward h
  obtain ⟨-, hown, -⟩ := b.forward.builds s hs
  rw [b.config] at hown
  have hshaped := b.shaped hbounded hraw hs fun id _ => b.outputShaped hbounded hraw id
  obtain ⟨-, hkernels⟩ := hown.chained hshaped (b.leavesShapes hraw hs)
  rcases hkernels kernel padding source node hcall with hlayer | hfusion
  · exact .inl hlayer
  · obtain ⟨hcontraction, houtput, hconcat, nodes, hnodes, hsource, hnode⟩ := hfusion
    obtain ⟨f, gradients, hf, hstate, hshapes⟩ := b.exists_final hs
    have hconcatenation := b.node?_of_own hs hconcat (List.mem_singleton_self _)
    refine .inr ⟨_, hconcatenation, f, List.mem_of_getElem? hf, s.forward, gradients, nodes,
      hstate, rfl, hnodes, hsource, hnode, ?_⟩
    rw [hshapes]
    exact ⟨hshaped.sources, hcontraction, houtput⟩

theorem shapeConsistent (b : TapeBuild g g' t t' answers) (hbounded : g.Bounded)
    (hraw : ReadsInputs b.raw t') : ShapeConsistent g g' b.raw b.outputs t t' where
  chained := by
    intro node kernel padding source hmem hplain
    rcases b.kernel_cases hbounded hraw hmem with hlayer | ⟨sources, hconcat, -⟩
    · exact hlayer.shape
    · exact absurd hconcat (hplain sources)
  fused := by
    intro node kernel padding source sources hmem hconcat
    rcases b.kernel_cases hbounded hraw hmem with hlayer | ⟨_, hnode, hfusion⟩
    -- The source of a layer has a shape, a concatenation has none.
    · have hshape := hlayer.shape
      rw [shapeAt_concat hraw hconcat] at hshape
      cases hshape
    · rw [hconcat] at hnode
      cases hnode
      exact hfusion
  channels := by
    intro node kernel padding source hmem kind size stride inChannels outChannels bias weights
      hkind
    rcases b.kernel_cases hbounded hraw hmem with hlayer | ⟨_, -, hfusion⟩
    · obtain ⟨l, hl⟩ := hlayer.layer
      obtain ⟨hin, hout, rfl⟩ := Layer.convolution_channels hlayer.regular hl hkind
      exact ⟨hin, hout, by simp⟩
    · obtain ⟨_, -, _, _, _, -, -, -, -, -, -, hcontraction, -⟩ := hfusion
      obtain ⟨_, _, _, hmade, hin, hout, hweights⟩ := hcontraction.kind
      rw [hmade] at hkind
      cases hkind
      refine ⟨hin, hout, ?_⟩
      rintro _ ⟨⟩
      exact hweights
  length_outputs := b.length_outputs.trans b.size_eq.symm
  outputs := by
    intro id f hf
    have hlt : id < g.size := b.size_eq ▸ (List.getElem?_eq_some_iff.mp hf).1
    obtain ⟨s, hs, rfl⟩ := b.exists_step hlt
    obtain ⟨_, _, hfinal, -, hshapes⟩ := b.exists_final hs
    rw [hf] at hfinal
    cases hfinal
    obtain ⟨_, shapes, -, heval, hflow⟩ := b.evaluated hs
    have houtput := b.forward.output s hs
    refine ⟨_, houtput, ?_⟩
    rw [b.outputShaped hbounded hraw s.id _ shapes houtput heval, hshapes, hflow]
    rfl

end TapeBuild

/-- After a complete build on the tape the shapes of its nodes fit each other and the flows. -/
theorem buildAll_shapeConsistent {s s' : Graph × Tape} (h : s.1.Reachable) (hbounded : s.1.Bounded)
    {raw : List Handle} (hraw : ReadsInputs raw s.2) {build : GraphBuild}
    (hrun : (buildAll raw).Yields s build s') :
    ShapeConsistent s.1 s'.1 raw build.outputs s.2 s'.2 := by
  obtain ⟨b, rfl, houtputs⟩ := h.exists_tapeBuild hrun
  rw [← houtputs]
  exact b.shapeConsistent hbounded (hraw.mono b.prefix_records.subset)

theorem bounded_diamond : diamond.Bounded where
  rawInputs := by simp [diamond, Shape.Regular]
  layers := by simp [diamond, Flow.fresh, Layer.Bounded, Layer.sizes]
  fusions := by
    intro id shapes heval
    have hfits : ∀ id < 4, (diamond.eval id).toOption.all (fun shapes => decide
        (Shape.paddedTotal diamond.config.channelAlignment shapes.sources < 100)) = true := by
      decide +kernel
    by_cases hid : id < 4
    · have hfound := hfits id hid
      rw [heval] at hfound
      have hlt := of_decide_eq_true hfound
      omega
    · have hnone : diamond.flows[id]? = none := List.getElem?_eq_none (Nat.le_of_not_lt hid)
      rw [eval, show diamond.size = 4 from rfl, evalWithin, hnone] at heval
      cases heval

/-- Both sources of the last flow have three channels, and each of them takes four in the padded
stack. -/
theorem buildAll_shapeConsistent_diamond :
    ShapeConsistent diamond diamondBuild.state.1 [⟨0⟩] [⟨1⟩, ⟨1⟩, ⟨2⟩, ⟨5⟩] diamondTape
      diamondBuild.state.2 ∧
    ((appended diamondTape diamondBuild.state.2).filterMap kernelOf).map
      (fun (node, kernel, _, source) => (node, source, kernel.input, kernel.output)) =
      [(⟨1⟩, ⟨0⟩, ⟨4, 4, 3, 1⟩, ⟨4, 4, 3, 1⟩), (⟨2⟩, ⟨1⟩, ⟨4, 4, 3, 1⟩, ⟨4, 4, 3, 1⟩),
        (⟨4⟩, ⟨3⟩, ⟨4, 4, 8, 1⟩, ⟨4, 4, 6, 1⟩), (⟨5⟩, ⟨4⟩, ⟨4, 4, 6, 1⟩, ⟨4, 4, 6, 1⟩)] := by
  have hraw : ReadsInputs [⟨0⟩] diamondTape :=
    ⟨List.nodup_singleton _, by simp [diamondTape, Tape.node?]⟩
  refine ⟨?_, by decide +kernel⟩
  exact buildAll_shapeConsistent reachable_diamond bounded_diamond hraw yields_diamondBuild

end LayerFlow.Graph
