/-
LayerFlow.Proofs.Graph.Forward

What is asked for when all flows of a graph are built forward: flow by flow in the order of
evaluation, each flow once, each with the requests of its own build.

A flow is built on the handles that its sources have at that time; they keep them, so a build can
be told by the handles that the whole of it answers.

Main statements: `yields_buildForwardIn`, what one walk asks for, and `WellFormed.builtForward`,
what a forward build of a graph asks for and leaves.
-/
import LayerFlow.Proofs.Flow.Calls
import LayerFlow.Proofs.Graph.Visits
import LayerFlow.Proofs.References.Order

namespace LayerFlow

open Op

/-! ## Steps of the walk -/

/-- One flow built forward: the flow before, its layers after, its nodes and the requests for
them. -/
structure ForwardStep where
  id : Nat
  flow : Flow
  layers : List Layer
  forward : ForwardNodes
  own : List Call

namespace ForwardStep

/-- The flow after the step. -/
def after (s : ForwardStep) : Flow :=
  { s.flow with layers := s.layers, state := .forwardBuilt s.forward }

/-- The step as a visit to the flow. -/
def visit (s : ForwardStep) : Graph.Visit := ⟨s.id, s.flow, s.after⟩

/-- The step builds its flow with the requests it lists, on the handles of a table, and changes
nothing of the layers but the stores. -/
structure Builds (s : ForwardStep) (raw : List Handle) (outputs : List (Option Handle))
    (alignment : Nat) : Prop where
  bare : s.layers.map Layer.bare = s.flow.layers.map Layer.bare
  own : Flow.BuildForwardCalls s.flow raw outputs alignment s.forward s.own
  resolved : s.flow.shapes.input.isResolved = true

end ForwardStep

namespace Graph

variable {β : Type} [Backend β]

/-- One flow of the walk. -/
theorem yields_buildForwardIn_cons {raw : List Handle} {alignment id : Nat} {rest : List Nat}
    {outputs outputs' : List (Option Handle)} {g g' : Graph} {o o' : Observed β}
    (h : (buildForwardIn raw alignment (id :: rest) outputs).Yields (g, o) outputs' (g', o'))
    (hcoherent : ∀ f ∈ g.flows, f.Coherent) :
    ∃ (s : ForwardStep) (u : Observed β), s.id = id ∧ g.flows[s.id]? = some s.flow ∧
      s.after.Coherent ∧ s.Builds raw outputs alignment ∧ u.calls = o.calls ++ s.own ∧
      (buildForwardIn raw alignment rest (outputs.set s.id (some s.forward.output))).Yields
        (g.setFlow s.id s.after, u) outputs' (g', o') := by
  obtain ⟨output, ⟨g₂, o₂⟩, honFlow, hrest⟩ := yields_bind.mp h
  obtain ⟨f, f', hf, hbuild, rfl⟩ := yields_onFlow honFlow
  have hbefore := hcoherent f (List.mem_of_getElem? hf)
  obtain ⟨hstate, hresolved⟩ := Flow.checkForward_of_yields_buildForward hbuild
  -- A flow is built in the state of being inferred, so its shapes fit its layers.
  have hfits : f.Fits f.shapes := hbefore.fits (by rw [hstate]; simp)
  have hafter := hbefore.buildForward o raw outputs alignment
  rw [hbuild.2] at hafter
  obtain ⟨hbare, forward, own, hown, hf', rfl, hcalls⟩ := Flow.yields_buildForward hfits hbuild
  rw [hf'] at hrest hafter
  exact ⟨⟨id, f, f'.layers, forward, own⟩, o₂, rfl, hf, hafter,
    ⟨hbare, hown, hresolved⟩, hcalls, hrest⟩

/-- A table of which some places are still empty. -/
def Pending (ids : List Nat) (outputs : List (Option Handle)) : Prop :=
  ∀ id ∈ ids, outputs[id]? = some none

theorem Pending.set {id : Nat} {rest : List Nat} {outputs : List (Option Handle)}
    (h : Pending (id :: rest) outputs) (hnew : id ∉ rest) (output : Handle) :
    Pending rest (outputs.set id (some output)) := by
  intro other hother
  have hne : id ≠ other := by
    rintro rfl
    exact hnew hother
  rw [List.getElem?_set_ne hne]
  exact h other (List.mem_cons_of_mem id hother)

/-- Filling an empty place loses nothing. -/
theorem Pending.extends_set {id : Nat} {rest : List Nat} {outputs : List (Option Handle)}
    (h : Pending (id :: rest) outputs) (output : Handle) :
    Flow.Extends (outputs.set id (some output)) outputs := by
  intro other found hfound
  have hne : id ≠ other := by
    rintro rfl
    rw [h id List.mem_cons_self] at hfound
    cases hfound
  rw [List.getElem?_set_ne hne]
  exact hfound

/-- A walk over some flows, told by the table that it leaves: each flow is built on handles that
are still there in the end, and its own handle is one of them. -/
theorem yields_buildForwardIn {raw : List Handle} {alignment : Nat} {ids : List Nat}
    {outputs outputs' : List (Option Handle)} {g g' : Graph} {o o' : Observed β}
    (h : (buildForwardIn raw alignment ids outputs).Yields (g, o) outputs' (g', o'))
    (hcoherent : ∀ f ∈ g.flows, f.Coherent) (honce : ids.Nodup) (hpending : Pending ids outputs) :
    Flow.Extends outputs' outputs ∧ outputs'.length = outputs.length ∧
    ∃ steps : List ForwardStep, steps.map ForwardStep.id = ids ∧
      Visits g (steps.map ForwardStep.visit) g' ∧
      (∀ s ∈ steps, s.Builds raw outputs' alignment ∧
        outputs'[s.id]? = some (some s.forward.output)) ∧
      o'.calls = o.calls ++ steps.flatMap ForwardStep.own := by
  induction ids generalizing outputs g o with
  | nil =>
    obtain ⟨rfl, heq⟩ := yields_pure.mp h
    cases heq
    exact ⟨fun _ _ hfound => hfound, rfl, [], rfl, .nil g', by simp, by simp⟩
  | cons id rest ih =>
    obtain ⟨s, u, rfl, hflow, hafter, hbuilds, hfirst, hrest⟩ :=
      yields_buildForwardIn_cons h hcoherent
    -- The flow just built is coherent, the others are as they were.
    have hlater : ∀ f ∈ (g.setFlow s.id s.after).flows, f.Coherent := by
      intro f hf
      rcases List.mem_or_eq_of_mem_set hf with hf | rfl
      · exact hcoherent f hf
      · exact hafter
    obtain ⟨hnew, honce⟩ := List.nodup_cons.mp honce
    obtain ⟨hkept, hlength, steps, rfl, hvisits, hsteps, hcalls⟩ :=
      ih hrest hlater honce (hpending.set hnew s.forward.output)
    have hextends : Flow.Extends outputs' outputs := fun other found hfound =>
      hkept other found (hpending.extends_set s.forward.output other found hfound)
    have hplace := List.getElem?_eq_some_iff.mp (hpending s.id List.mem_cons_self)
    refine ⟨hextends, by rw [hlength, List.length_set], s :: steps, rfl,
      .cons hflow rfl hvisits, ?_, ?_⟩
    · rw [List.forall_mem_cons]
      refine ⟨⟨⟨hbuilds.bare, hbuilds.own.of_extends hextends, hbuilds.resolved⟩, ?_⟩, hsteps⟩
      exact hkept _ _ (List.getElem?_set_self hplace.1)
    · rw [hcalls, hfirst, List.append_assoc]
      rfl

/-- A table without gaps is the list of its handles. -/
theorem completeOutputs_eq_ok_iff {table : List (Option Handle)} {outputs : List Handle} :
    completeOutputs table = .ok outputs ↔ table = outputs.map some := by
  rw [completeOutputs, Traversal.mapM_eq_ok_iff]
  -- Only the entries of the table decide, not the places that they are counted by.
  have hentries : table.zipIdx.map Prod.fst = table := List.zipIdx_map_fst 0 table
  conv => rhs; rw [← hentries, ← List.forall₂_eq_eq_eq, List.forall₂_map_right_iff,
    List.forall₂_map_left_iff]
  constructor <;> refine List.Forall₂.imp fun entry h => ?_
  · rcases entry with ⟨_ | found, place⟩ <;> simp
  · rcases entry with ⟨_ | found, place⟩ <;> simp

/-- What a forward build of a graph amounts to: `outputs` are the handles of the flows by id, and
`steps` the flows in the order in which they are built. -/
structure BuiltForward (g g' : Graph) (raw outputs : List Handle) (steps : List ForwardStep) :
    Prop where
  order : steps.map ForwardStep.id = g.references.order
  builds : ∀ s ∈ steps, s.Builds raw (outputs.map some) g.config.channelAlignment
  before : ∀ s ∈ steps, g.flows[s.id]? = some s.flow
  after : ∀ s ∈ steps, g'.flows[s.id]? = some s.after
  output : ∀ s ∈ steps, outputs[s.id]? = some s.forward.output
  length_outputs : outputs.length = g.size
  rawInputs : g'.rawInputs = g.rawInputs
  inputs : g'.flows.map Flow.inputs = g.flows.map Flow.inputs

/-- A forward build of a whole graph on a backend under observation. -/
theorem WellFormed.builtForward {g g' : Graph} (h : g.WellFormed) {raw : List Handle}
    {o o' : Observed β} {outputs : List Handle}
    (hrun : (buildForwardAll raw).Yields (g, o) outputs (g', o')) :
    ∃ steps : List ForwardStep, BuiltForward g g' raw outputs steps ∧
      o'.calls = o.calls ++ steps.flatMap ForwardStep.own := by
  -- First the order is found, then the flows are walked.
  obtain ⟨analysis, _, hzoom, hwalk⟩ := yields_bind.mp hrun
  obtain ⟨g₁, hverify, rfl⟩ := yields_zoom.mp hzoom
  obtain ⟨rfl, rfl⟩ := h.yields_ensureVerified.unique hverify
  replace hwalk := yields_get_bind.mp hwalk
  obtain ⟨table, ⟨g₂, o₂⟩, hsteps, hcomplete⟩ := yields_bind.mp hwalk
  obtain ⟨houtputs, heq⟩ := yields_ofExcept.mp hcomplete
  obtain ⟨rfl, rfl⟩ := Prod.mk.inj heq
  obtain rfl := completeOutputs_eq_ok_iff.mp houtputs
  have hcoherent : ∀ f ∈ g.flows, f.Coherent := fun f hf => (h.flows f hf).coherent
  -- In the beginning no flow of the order has a handle.
  have hpending : Pending g.references.order (List.replicate g.size none) := by
    intro id hid
    have hlt := (References.mem_order h.sound.acyclic_references h.sound.inRange_references).mp hid
    rw [length_references] at hlt
    rw [List.getElem?_replicate, if_pos hlt]
  obtain ⟨-, hlength, steps, hids, hvisits, hbuilds, hcalls⟩ := yields_buildForwardIn hsteps
    hcoherent (References.order_nodup g.references) hpending
  -- No flow stands twice in the order, so what a step leaves of a flow stays.
  have honce : ((steps.map ForwardStep.visit).map Visit.id).Nodup := by
    rw [List.map_map]
    exact hids ▸ References.order_nodup g.references
  have hfound : ∀ s ∈ steps, g.flows[s.id]? = some s.flow ∧ g'.flows[s.id]? = some s.after :=
    fun s hs => hvisits.found honce (List.mem_map_of_mem hs)
  refine ⟨steps, {
    order := hids
    builds := fun s hs => (hbuilds s hs).1
    before := fun s hs => (hfound s hs).1
    after := fun s hs => (hfound s hs).2
    output := fun s hs => ?_
    length_outputs := by rwa [List.length_map, List.length_replicate] at hlength
    rawInputs := hvisits.rawInputs_eq
    inputs := hvisits.inputs_eq }, hcalls⟩
  have houtput := (hbuilds s hs).2
  rw [List.getElem?_map] at houtput
  obtain ⟨_, houtput, heq⟩ := Option.map_eq_some_iff.mp houtput
  cases heq
  exact houtput

end Graph

end LayerFlow
