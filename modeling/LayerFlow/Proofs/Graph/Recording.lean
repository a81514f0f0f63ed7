/-
LayerFlow.Proofs.Graph.Recording

A complete build on the tape, taken apart: the graphs between its stages, the flows in the order
in which they are built forward and backward, and the nodes that the tape gets for it.

Main statement: `Reachable.exists_tapeBuild`, every complete build on the tape that succeeds can
be taken apart so.
-/
import LayerFlow.Proofs.Flow.Mirror
import LayerFlow.Proofs.Graph.Backward
import LayerFlow.Proofs.Graph.Forward
import LayerFlow.Proofs.Graph.Inference

namespace LayerFlow.Graph

open Op

/-- The nodes that a tape got since it was another one, with their handles. -/
def appended (t t' : Tape) : List (Handle × Instruction) := t'.records.drop t.size

theorem nodup_appended (t t' : Tape) : ((appended t t').map Prod.fst).Nodup := by
  rw [appended, List.map_drop]
  exact (Tape.nodup_records t').sublist (List.drop_sublist _ _)

/-- A complete build on the tape that succeeded: `inferred` and `built` are the graphs between its
stages, and `calls` are the requests of the backward build. -/
structure TapeBuild (g g' : Graph) (t t' : Tape) (answers : List (Option Handle)) where
  raw : List Handle
  outputs : List Handle
  inferred : Graph
  built : Graph
  forwards : List ForwardStep
  backwards : List BackwardStep
  calls : List Call
  wellFormed : built.WellFormed
  settled : Settled g inferred
  config : inferred.config = g.config
  forward : BuiltForward inferred built raw outputs forwards
  routed : Routed built g' backwards answers calls
  records : t'.records = t.records ++
    (forwards.flatMap ForwardStep.own ++ calls).flatMap Call.records
  shared : ∀ call ∈ calls, call.Shared

theorem WellFormed.settled_of_inferAll {g g' : Graph} (h : g.WellFormed) {changed : Bool}
    (hrun : inferAll.Yields g changed g') : Settled g g' := by
  rcases h.inferAll_spec with ⟨_, found, hyields, hsettled⟩ | ⟨e, found, hfails, -⟩
  · obtain ⟨-, rfl⟩ := hyields.unique hrun
    exact hsettled
  · exact absurd hfails hrun.not_fails

/-- A complete build on the tape is the same build under observation, and the nodes it adds are
those of the requests. -/
theorem yields_buildAll_observed {g g' : Graph} {t t' : Tape} {raw : List Handle}
    {build : GraphBuild} (hrun : (buildAll raw).Yields (g, t) build (g', t')) :
    ∃ o' : Observed Tape, (buildAll raw).Yields (g, (⟨t, []⟩ : Observed Tape)) build (g', o') ∧
      o'.inner = t' ∧ Observed.Recorded t.records o' := by
  obtain ⟨⟨g₁, o'⟩, hobserved, heq, hinner⟩ :=
    (related_buildAll Observed.alike raw).yields_left (s := (g, ⟨t, []⟩)) ⟨rfl, rfl⟩ hrun
  obtain rfl : g₁ = g' := heq
  have hstart : Observed.Recorded t.records ⟨t, []⟩ := ⟨(List.append_nil _).symm, by simp⟩
  obtain ⟨_, -, -, -, hrecorded⟩ := (related_buildAll Observed.alike_recorded raw).yields
    (s := (g, ⟨t, []⟩)) ⟨rfl, rfl, hstart⟩ hobserved
  exact ⟨o', hobserved, hinner, hrecorded⟩

/-- A complete build on the tape that succeeds, taken apart with its handles. -/
theorem Reachable.exists_tapeBuild {s s' : Graph × Tape} (h : s.1.Reachable) {raw : List Handle}
    {build : GraphBuild} (hrun : (buildAll raw).Yields s build s') :
    ∃ b : TapeBuild s.1 s'.1 s.2 s'.2 build.rawInputGradients,
      b.raw = raw ∧ b.outputs = build.outputs := by
  obtain ⟨g, t⟩ := s
  obtain ⟨g', t'⟩ := s'
  obtain ⟨o', hobserved, rfl, hrecorded⟩ := yields_buildAll_observed hrun
  -- Inference.
  obtain ⟨changed, _, hzoom, hbuilds⟩ := yields_bind.mp hobserved
  obtain ⟨inferred, hinfer, rfl⟩ := yields_zoom.mp hzoom
  have hreach : inferred.Reachable := hinfer.2 ▸ h.step (.inferAll g)
  have hconfig : inferred.config = g.config := hinfer.2 ▸ h.wellFormed.config_inferAll
  -- Forward.
  obtain ⟨outputs, ⟨built, o₁⟩, hforward, hrest⟩ := yields_bind.mp hbuilds
  obtain ⟨forwards, hsteps, hfirst⟩ := hreach.wellFormed.builtForward hforward
  have hbuilt : built.Reachable := by
    have hstep := hreach.step (.buildForwardAll inferred (⟨t, []⟩ : Observed Tape) raw)
    rw [hforward.2] at hstep
    exact hstep
  -- Backward.
  obtain ⟨answers, ⟨final, o₂⟩, hbackward, hlast⟩ := yields_bind.mp hrest
  obtain ⟨backwards, calls, hsecond, hrouted⟩ := hbuilt.wellFormed.routed hbackward
  simp only [yields_bind, yields_get, yields_say, yields_pure] at hlast
  obtain ⟨_, _, ⟨rfl, rfl⟩, _, _, rfl, rfl, heq⟩ := hlast
  obtain ⟨rfl, rfl⟩ := Prod.mk.inj heq
  have hcalls : o'.calls = forwards.flatMap ForwardStep.own ++ calls := by
    rw [hsecond, hfirst]
    rfl
  refine ⟨{
    raw := raw
    outputs := outputs
    inferred := inferred
    built := built
    forwards := forwards
    backwards := backwards
    calls := calls
    wellFormed := hbuilt.wellFormed
    settled := h.wellFormed.settled_of_inferAll hinfer
    config := hconfig
    forward := hsteps
    routed := hrouted
    records := by rw [hrecorded.records, hcalls]
    shared := fun call hcall => hrecorded.shared call ?_ }, rfl, rfl⟩
  rw [hcalls]
  exact List.mem_append_right _ hcall

/-- A complete build on the tape that succeeds can be taken apart. -/
theorem Reachable.tapeBuild {s s' : Graph × Tape} (h : s.1.Reachable) {raw : List Handle}
    {build : GraphBuild} (hrun : (buildAll raw).Yields s build s') :
    Nonempty (TapeBuild s.1 s'.1 s.2 s'.2 build.rawInputGradients) := by
  obtain ⟨b, -⟩ := h.exists_tapeBuild hrun
  exact ⟨b⟩

/-! ## Sums -/

/-- A handle stands for the sum of gradients: a single gradient is its own sum, several take a
node. -/
inductive IsSum (records : List (Handle × Instruction)) : List Handle → Handle → Prop
  | single (gradient : Handle) : IsSum records [gradient] gradient
  | several {gradients : List Handle} {sum : Handle} (hmany : 2 ≤ gradients.length)
      (hnode : (sum, .accumulate gradients) ∈ records) : IsSum records gradients sum

theorem isSum_of_call {calls : List Call} {gradients : List Handle} {answer : Handle}
    (hcall : .accumulation gradients answer ∈ calls)
    (hshared : (Call.accumulation gradients answer).Shared) (hne : gradients ≠ []) :
    IsSum (calls.flatMap Call.records) gradients answer := by
  rcases gradients with _ | ⟨first, _ | ⟨second, rest⟩⟩
  · exact absurd rfl hne
  · rw [hshared first rfl]
    exact .single first
  · refine .several (by simp) (List.mem_flatMap.mpr ⟨_, hcall, ?_⟩)
    exact List.mem_singleton_self _

theorem IsSum.mono {records more : List (Handle × Instruction)} {gradients : List Handle}
    {sum : Handle} (h : IsSum records gradients sum) (hsubset : records ⊆ more) :
    IsSum more gradients sum := by
  cases h with
  | single => exact .single _
  | several hmany hnode => exact .several hmany (hsubset hnode)

theorem IsSum.ne_nil {records : List (Handle × Instruction)} {gradients : List Handle}
    {sum : Handle} (h : IsSum records gradients sum) : gradients ≠ [] := by
  cases h with
  | single => simp
  | several hmany hnode =>
    rintro rfl
    simp at hmany

/-- Where the gradient of the output of a flow comes from: a seed if no flow reads the output,
otherwise the sum of what its readers hand out. -/
def Entering (g g' : Graph) (records : List (Handle × Instruction)) (id : Nat)
    (output entering : Handle) : Prop :=
  (g.consumers id = [] ∧ (entering, .outputGradient output) ∈ records) ∨
    ∃ arrived, arrived.map some = (g.places (.flow id)).map (fun place =>
      g'.inputGradient? place.1 place.2) ∧ IsSum records arrived entering

/-! ## What a build leaves on the tape -/

namespace TapeBuild

variable {g g' : Graph} {t t' : Tape} {answers : List (Option Handle)}

/-- The tape keeps what it held before. -/
theorem prefix_records (b : TapeBuild g g' t t' answers) : t.records <+: t'.records := by
  rw [b.records]
  exact List.prefix_append _ _

theorem appended_eq (b : TapeBuild g g' t t' answers) :
    appended t t' = (b.forwards.flatMap ForwardStep.own ++ b.calls).flatMap Call.records := by
  rw [appended, b.records, ← Tape.length_records, List.drop_left]

theorem rawInputs (b : TapeBuild g g' t t' answers) : b.built.rawInputs = g.rawInputs :=
  b.forward.rawInputs.trans b.settled.1.rawInputs

theorem inputs (b : TapeBuild g g' t t' answers) :
    b.built.flows.map Flow.inputs = g.flows.map Flow.inputs :=
  b.forward.inputs.trans b.settled.1.inputs

theorem references_eq (b : TapeBuild g g' t t' answers) : b.built.references = g.references :=
  references_eq_of_inputs b.inputs

/-- The flows are built in the order that the document gives them. -/
theorem forwardOrder (b : TapeBuild g g' t t' answers) :
    b.forwards.map ForwardStep.id = g.references.order := by
  rw [b.forward.order, references_eq_of_inputs b.settled.1.inputs]

theorem sound (b : TapeBuild g g' t t' answers) : Sound g.rawInputs.length g.flows := by
  rw [← b.rawInputs]
  exact b.wellFormed.sound.congr b.inputs.symm

/-- Every flow is built forward. -/
theorem exists_step (b : TapeBuild g g' t t' answers) {id : Nat} (hid : id < g.size) :
    ∃ s ∈ b.forwards, s.id = id := by
  rw [← List.mem_map, b.forwardOrder, References.mem_order b.sound.acyclic_references
    b.sound.inRange_references, length_references]
  exact hid

theorem size_eq (b : TapeBuild g g' t t' answers) : g'.size = g.size := by
  have hinputs := congrArg List.length (b.routed.inputs.trans b.inputs)
  rwa [List.length_map, List.length_map] at hinputs

theorem length_outputs (b : TapeBuild g g' t t' answers) : b.outputs.length = g.size :=
  b.forward.length_outputs.trans b.settled.1.length

theorem consumers_eq (b : TapeBuild g g' t t' answers) (id : Nat) :
    b.built.consumers id = g.consumers id := by
  rw [consumers, b.references_eq, consumers]

theorem places_eq (b : TapeBuild g g' t t' answers) (source : Source) :
    b.built.places source = g.places source := by
  have hinputs : b.built.inputsOf = g.inputsOf := by
    funext id
    rw [inputsOf, ← List.getElem?_map, b.inputs, List.getElem?_map, inputsOf]
  rw [places, b.references_eq, hinputs, places]

/-- The nodes of the backward build are on the tape. -/
theorem records_subset (b : TapeBuild g g' t t' answers) {calls : List Call}
    (h : calls ⊆ b.calls) : calls.flatMap Call.records ⊆ appended t t' := by
  intro entry hentry
  obtain ⟨call, hcall, hrecord⟩ := List.mem_flatMap.mp hentry
  rw [b.appended_eq]
  exact List.mem_flatMap.mpr ⟨call, List.mem_append_right _ (h hcall), hrecord⟩

theorem entry_mem (b : TapeBuild g g' t t' answers) {s : BackwardStep} (hs : s ∈ b.backwards) :
    s.entry (arrived b.backwards (.flow s.id)) ∈ b.calls := by
  rw [b.routed.calls]
  apply List.mem_append_left
  exact List.mem_flatMap.mpr ⟨s, hs, List.mem_cons_self⟩

theorem own_subset (b : TapeBuild g g' t t' answers) {s : BackwardStep} (hs : s ∈ b.backwards) :
    s.own ⊆ b.calls := by
  intro call hcall
  rw [b.routed.calls]
  apply List.mem_append_left
  exact List.mem_flatMap.mpr ⟨s, hs, List.mem_cons_of_mem _ hcall⟩

/-- What arrives at a source, place by place. -/
theorem arrived_eq (b : TapeBuild g g' t t' answers) (source : Source) :
    (arrived b.backwards source).map some =
      (g.places source).map fun place => g'.inputGradient? place.1 place.2 := by
  rw [b.routed.arrived, b.places_eq]

/-- The gradient of the output of each flow comes from where the document says. -/
theorem entering (b : TapeBuild g g' t t' answers) {s : BackwardStep} (hs : s ∈ b.backwards) :
    Entering g g' (appended t t') s.id s.forward.output s.entering := by
  have hentry := b.entry_mem hs
  rw [BackwardStep.entry] at hentry
  by_cases hnil : arrived b.backwards (.flow s.id) = []
  -- Nothing arrived: the flow has a seed.
  · rw [if_pos hnil] at hentry
    refine .inl ⟨?_, ?_⟩
    · rw [← b.consumers_eq]
      exact (b.routed.seeded s hs).mp hnil
    · apply b.records_subset (List.Subset.refl _)
      exact List.mem_flatMap.mpr ⟨_, hentry, List.mem_singleton_self _⟩
  -- Otherwise the gradient is the sum of what arrived.
  · rw [if_neg hnil] at hentry
    refine .inr ⟨_, b.arrived_eq (.flow s.id), ?_⟩
    have hsum := isSum_of_call hentry (b.shared _ hentry) hnil
    exact hsum.mono (b.records_subset (List.Subset.refl _))

/-- Each flow passes the gradient of its output on to its sources. -/
theorem propagated (b : TapeBuild g g' t t' answers) {s : BackwardStep} (hs : s ∈ b.backwards) :
    ∃ layerGradients,
      Flow.LayerGradients (appended t t') s.entering s.forward.layers layerGradients ∧
      Flow.SourceGradients (appended t t') s.forward (layerGradients.head?.getD s.entering)
        s.gradients := by
  obtain ⟨hbuilds, -, -⟩ := b.routed.built s hs
  have hcoherent := (b.wellFormed.flows s.flow (List.mem_of_getElem? hbuilds.flow)).coherent
  have hfits := hcoherent.fits (by rw [hbuilds.state]; simp)
  have hforward := hcoherent.built s.forward (by rw [hbuilds.state]; rfl)
  have hnodes := Flow.map_node_builtLayers hfits hforward.length_layers
  obtain ⟨layerGradients, hlayers, hsources⟩ := hbuilds.own.propagated hnodes
  have hsubset := b.records_subset (b.own_subset hs)
  exact ⟨layerGradients, hlayers.mono hsubset, hsources.mono hsubset⟩

end TapeBuild

/-! ## The document with a shared flow -/

/-- A tape with the only raw input of the document. -/
def diamondTape : Tape := ⟨#[.readInput 0], none⟩

/-- A complete build of the document on that tape. -/
def diamondBuild : Outcome Failure (Graph × Tape) GraphBuild :=
  (buildAll [⟨0⟩]).run (diamond, diamondTape)

theorem yields_diamondBuild : (buildAll [⟨0⟩]).Yields (diamond, diamondTape)
    ⟨[⟨1⟩, ⟨1⟩, ⟨2⟩, ⟨5⟩], [some ⟨13⟩]⟩ diamondBuild.state :=
  ⟨by decide +kernel, rfl⟩

end LayerFlow.Graph
