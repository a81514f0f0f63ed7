/-
LayerFlow.Proofs.Graph.Backward

Where the gradients go when all flows of a graph are built backward.  The walk goes against the
order of evaluation, so whatever reads a flow has handed out its gradients before the flow is
reached, and nothing is handed to it afterwards; hence what has arrived at a flow when it is
reached is what arrives in the whole walk.  This holds for every backend, since a build cannot
tell a backend from the same backend under observation.

Main statements: `yields_buildBackwardIn`, what one walk asks for, and `buildBackwardAll_routes`,
every gradient reaches the source it belongs to exactly once.
-/
import LayerFlow.Backend.Tape
import LayerFlow.Proofs.Graph.Places
import LayerFlow.Proofs.Graph.Visits

namespace LayerFlow

open Op

/-! ## Steps of the walk -/

/-- One flow built backward: the flow before, the gradient that enters it, the gradients of its
sources and the requests for its own nodes. -/
structure BackwardStep where
  id : Nat
  flow : Flow
  forward : ForwardNodes
  entering : Handle
  gradients : List Handle
  own : List Call

namespace BackwardStep

/-- The flow after the step. -/
def after (s : BackwardStep) : Flow :=
  { s.flow with state := .backwardBuilt s.forward s.gradients }

/-- The step as a visit to the flow. -/
def visit (s : BackwardStep) : Graph.Visit := ⟨s.id, s.flow, s.after⟩

/-- The gradients that the step hands out. -/
def handed (s : BackwardStep) : List (Source × Handle) := s.flow.inputs.zip s.gradients

/-- The request for the gradient that enters the flow: a seed if nothing arrived, otherwise the
sum of what arrived. -/
def entry (s : BackwardStep) (arrived : List Handle) : Call :=
  if arrived = [] then .outputGradient s.forward.output s.entering
  else .accumulation arrived s.entering

/-- The step builds the flow it names in a graph, with the requests it lists. -/
structure Builds (s : BackwardStep) (g : Graph) : Prop where
  flow : g.flows[s.id]? = some s.flow
  state : s.flow.state = .forwardBuilt s.forward
  own : Flow.BuildBackwardCalls s.flow s.forward s.entering s.gradients s.own

end BackwardStep

/-- A request for a gradient that comes from other flows or from outside. -/
def Call.isTransfer : Call → Bool
  | .outputGradient _ _ | .accumulation _ _ => true
  | _ => false

theorem Flow.GradientCalls.isTransfer {builts : List BuiltLayer} {start last : Handle}
    {calls : List Call} (h : GradientCalls builts start last calls) :
    ∀ call ∈ calls, call.isTransfer = false := by
  induction h with
  | nil start => simp
  | cons hkernel hrest ih =>
    rw [List.forall_mem_cons]
    exact ⟨rfl, ih⟩

/-- A flow takes its own gradients from its own nodes. -/
theorem Flow.BuildBackwardCalls.isTransfer {f : Flow} {forward : ForwardNodes} {start : Handle}
    {gradients : List Handle} {calls : List Call}
    (h : BuildBackwardCalls f forward start gradients calls) :
    ∀ call ∈ calls, call.isTransfer = false := by
  cases h with
  | single hfusion hlayers => exact hlayers.isTransfer
  | several middle hfusion hlayers hcount =>
    intro call hcall
    rcases List.mem_append.mp hcall with hcall | hcall
    · exact hlayers.isTransfer call hcall
    · simp only [List.mem_cons, List.not_mem_nil, or_false] at hcall
      rcases hcall with rfl | rfl <;> rfl

/-- What arrives at a source in some steps. -/
def arrived (steps : List BackwardStep) (source : Source) : List Handle :=
  Graph.gradientsInto source (steps.flatMap BackwardStep.handed)

/-- The requests of a walk that starts after some gradients were handed out. -/
def walkCalls (handed : List (Source × Handle)) : List BackwardStep → List Call
  | [] => []
  | s :: rest => (s.entry (Graph.gradientsInto (.flow s.id) handed) :: s.own) ++
      walkCalls (handed ++ s.handed) rest

namespace Graph

variable {β : Type} [Backend β]

theorem yields_enteringGradient {output a : Handle} {arrived : List Handle} {o o' : Observed β}
    (h : (enteringGradient output arrived).Yields o a o') :
    o'.calls = o.calls ++
      [if arrived = [] then .outputGradient output a else .accumulation arrived a] := by
  rw [enteringGradient, yields_mapError] at h
  cases arrived with
  | nil => exact Observed.yields_appendOutputGradient h
  | cons first rest => exact Observed.yields_appendAccumulation h

/-- One flow of the walk. -/
theorem yields_buildBackwardIn_cons {id : Nat} {rest : List Nat}
    {handed handed' : List (Source × Handle)} {g g' : Graph} {o o' : Observed β}
    (h : (buildBackwardIn (id :: rest) handed).Yields (g, o) handed' (g', o')) :
    ∃ (s : BackwardStep) (u : Observed β), s.id = id ∧ s.Builds g ∧
      u.calls = o.calls ++ s.entry (gradientsInto (.flow s.id) handed) :: s.own ∧
      (buildBackwardIn rest (handed ++ s.handed)).Yields (g.setFlow s.id s.after, u) handed'
        (g', o') := by
  replace h := yields_get_bind.mp h
  obtain ⟨f, _, hflow, h⟩ := yields_bind.mp h
  obtain ⟨hf, rfl⟩ := yields_ofExcept.mp hflow
  have hf := flow_eq_ok_iff.mp hf
  split at h
  · simp at h
  next output houtput =>
  -- First the gradient of the output, then the nodes of the flow itself.
  obtain ⟨entering, u, hzoom, hafter⟩ := yields_bind.mp h
  obtain ⟨o₁, hentering, rfl⟩ := yields_zoom.mp hzoom
  obtain ⟨gradients, ⟨g₂, o₂⟩, honFlow, hrest⟩ := yields_bind.mp hafter
  obtain ⟨f₁, f₂, hf₁, hbuild, rfl⟩ := yields_onFlow honFlow
  rw [hf] at hf₁
  cases hf₁
  obtain ⟨forward, own, hstate, hown, rfl, hcalls⟩ := Flow.yields_buildBackward hbuild
  have hfirst := yields_enteringGradient hentering
  -- The output that the walk looked up is the one the flow was built with.
  have heq : output = forward.output := by
    rw [Flow.outputHandle?, hstate] at houtput
    exact (Option.some.inj houtput).symm
  subst heq
  refine ⟨⟨id, f, forward, entering, gradients, own⟩, o₂, rfl, ⟨hf, hstate, hown⟩, ?_, hrest⟩
  rw [hcalls, hfirst, List.append_assoc]
  rfl

/-- A walk over some flows. -/
theorem yields_buildBackwardIn {ids : List Nat} {handed handed' : List (Source × Handle)}
    {g g' : Graph} {o o' : Observed β}
    (h : (buildBackwardIn ids handed).Yields (g, o) handed' (g', o')) :
    ∃ steps : List BackwardStep, steps.map BackwardStep.id = ids ∧
      Visits g (steps.map BackwardStep.visit) g' ∧
      (∀ s ∈ steps, s.flow.state = .forwardBuilt s.forward ∧
        Flow.BuildBackwardCalls s.flow s.forward s.entering s.gradients s.own) ∧
      handed' = handed ++ steps.flatMap BackwardStep.handed ∧
      o'.calls = o.calls ++ walkCalls handed steps := by
  induction ids generalizing handed g o with
  | nil =>
    obtain ⟨rfl, heq⟩ := yields_pure.mp h
    cases heq
    exact ⟨[], rfl, .nil g', by simp, by simp, by simp [walkCalls]⟩
  | cons id rest ih =>
    obtain ⟨s, u, rfl, ⟨hflow, hstate, hown⟩, hfirst, hrest⟩ := yields_buildBackwardIn_cons h
    obtain ⟨steps, rfl, hvisits, hsteps, hhanded, hcalls⟩ := ih hrest
    refine ⟨s :: steps, rfl, .cons hflow rfl hvisits, ?_, ?_, ?_⟩
    · rw [List.forall_mem_cons]
      exact ⟨⟨hstate, hown⟩, hsteps⟩
    · rw [hhanded, List.flatMap_cons, List.append_assoc]
    · rw [hcalls, hfirst, List.append_assoc]
      rfl

/-! ## What arrives in a walk against the order -/

omit [Backend β] in
theorem gradientsInto_eq_nil {source : Source} {steps : List BackwardStep}
    (h : ∀ s ∈ steps, source ∉ s.flow.inputs) :
    gradientsInto source (steps.flatMap BackwardStep.handed) = [] := by
  rw [gradientsInto, List.filterMap_eq_nil_iff]
  rintro ⟨target, gradient⟩ hmem
  obtain ⟨s, hs, hentry⟩ := List.mem_flatMap.mp hmem
  have htarget : target ∈ s.flow.inputs := (List.of_mem_zip hentry).1
  refine if_neg ?_
  rintro rfl
  exact h s hs htarget

omit [Backend β] in
/-- If nothing is handed to a flow once it is reached, what arrived until then is what arrives
in the whole walk. -/
theorem walkCalls_eq {handed : List (Source × Handle)} {steps : List BackwardStep}
    (h : ∀ before s rest, steps = before ++ s :: rest →
      ∀ t ∈ s :: rest, Source.flow s.id ∉ t.flow.inputs) :
    walkCalls handed steps = steps.flatMap fun s =>
      s.entry (gradientsInto (.flow s.id) (handed ++ steps.flatMap BackwardStep.handed)) ::
        s.own := by
  induction steps generalizing handed with
  | nil => rfl
  | cons s rest ih =>
    -- Nothing that comes later in the walk is for this flow.
    have hlate := gradientsInto_eq_nil (h [] s rest rfl)
    rw [List.flatMap_cons] at hlate
    have hlater : ∀ before t more, rest = before ++ t :: more →
        ∀ u ∈ t :: more, Source.flow t.id ∉ u.flow.inputs :=
      fun before t more heq => h (s :: before) t more (by rw [heq]; rfl)
    rw [walkCalls, ih hlater, List.flatMap_cons, List.flatMap_cons, List.append_assoc,
      gradientsInto_append (.flow s.id) handed, hlate, List.append_nil]

/-! ## The gradients of raw inputs -/

theorem yields_rawGradient {handed : List (Source × Handle)} {slot : Nat}
    {answer : Option Handle} {o o' : Observed β}
    (h : (rawGradient handed slot).Yields o answer o') :
    (answer = none ↔ gradientsInto (.raw slot) handed = []) ∧
      o'.calls = o.calls ++
        (answer.map (Call.accumulation (gradientsInto (.raw slot) handed))).toList := by
  rw [rawGradient] at h
  split at h
  · next hnil =>
    obtain ⟨rfl, rfl⟩ := yields_pure.mp h
    exact ⟨iff_of_true rfl hnil, (List.append_nil _).symm⟩
  · next hne =>
    obtain ⟨sum, _, hsum, hanswer⟩ := yields_bind.mp h
    obtain ⟨rfl, rfl⟩ := yields_pure.mp hanswer
    refine ⟨iff_of_false (by simp) hne, ?_⟩
    exact Observed.yields_appendAccumulation (yields_mapError.mp hsum)

/-- The requests for the gradients of raw inputs: a sum for each slot that is read. -/
def rawCalls (arrivedAt : Nat → List Handle) (slots : List Nat)
    (answers : List (Option Handle)) : List Call :=
  (slots.zip answers).flatMap fun entry =>
    (entry.2.map (Call.accumulation (arrivedAt entry.1))).toList

theorem yields_rawGradients {handed : List (Source × Handle)} {slots : List Nat}
    {answers : List (Option Handle)} {o o' : Observed β}
    (h : (forEach (rawGradient handed) slots).Yields o answers o') :
    List.Forall₂ (fun slot answer => answer = none ↔ gradientsInto (.raw slot) handed = [])
        slots answers ∧
      o'.calls = o.calls ++
        rawCalls (fun slot => gradientsInto (.raw slot) handed) slots answers := by
  induction slots generalizing answers o with
  | nil =>
    obtain ⟨rfl, rfl⟩ := yields_forEach_nil.mp h
    exact ⟨.nil, (List.append_nil _).symm⟩
  | cons slot rest ih =>
    obtain ⟨answer, u, more, hfirst, hrest, rfl⟩ := yields_forEach_cons.mp h
    obtain ⟨hnone, hcall⟩ := yields_rawGradient hfirst
    obtain ⟨hall, hcalls⟩ := ih hrest
    refine ⟨.cons hnone hall, ?_⟩
    rw [hcalls, hcall, List.append_assoc]
    rfl

/-! ## Routing -/

/-- The gradient of a flow for the source at a position, once it is built backward. -/
def inputGradient? (g : Graph) (id k : Nat) : Option Handle := do
  let f ← g.flows[id]?
  let gradients ← f.state.inputGradients?
  gradients[k]?

/-- How the gradients of a backward build go from flow to flow.  `steps` are the flows in the
order in which they are built. -/
structure Routed (g g' : Graph) (steps : List BackwardStep) (answers : List (Option Handle))
    (calls : List Call) : Prop where
  /-- The document stays as it was. -/
  rawInputs : g'.rawInputs = g.rawInputs
  inputs : g'.flows.map Flow.inputs = g.flows.map Flow.inputs
  /-- The walk goes against the order of evaluation. -/
  order : steps.map BackwardStep.id = g.references.order.reverse
  /-- Each flow is built once. -/
  once : (steps.map BackwardStep.id).Nodup
  every : ∀ id, id ∈ steps.map BackwardStep.id ↔ id < g.flows.length
  /-- A flow ends built backward, with a gradient for each of its sources. -/
  built : ∀ s ∈ steps, s.Builds g ∧ g'.flows[s.id]? = some s.after ∧
    s.gradients.length = s.flow.inputs.length
  /-- The places of a source are those where it stands among the sources of a flow, each of them
  once. -/
  places : ∀ source, (g.places source).Nodup ∧ ∀ place, place ∈ g.places source ↔
    ∃ f, g.flows[place.1]? = some f ∧ f.inputs[place.2]? = some source
  /-- What arrives at a source are the gradients at all its places. -/
  arrived : ∀ source, (arrived steps source).map some =
    (g.places source).map fun place => g'.inputGradient? place.1 place.2
  /-- The flows that read a flow are built before it. -/
  earlier : ∀ before s after, steps = before ++ s :: after →
    ∀ place ∈ g.places (.flow s.id), place.1 ∈ before.map BackwardStep.id
  /-- Nothing arrives at a flow exactly if no flow reads it. -/
  seeded : ∀ s ∈ steps, LayerFlow.arrived steps (.flow s.id) = [] ↔ g.consumers s.id = []
  /-- Each flow asks once for the gradient that enters it, and then for its own nodes; each raw
  input that is read asks once for its gradient. -/
  calls : calls = (steps.flatMap fun s =>
      s.entry (LayerFlow.arrived steps (.flow s.id)) :: s.own) ++
    rawCalls (fun slot => LayerFlow.arrived steps (.raw slot)) (List.range g.rawInputs.length)
      answers
  /-- The requests for a flow's own nodes bring in no other gradients. -/
  own : ∀ s ∈ steps, ∀ call ∈ s.own, call.isTransfer = false
  /-- There is an answer for each raw input. -/
  length_answers : answers.length = g.rawInputs.length
  /-- The answer for a raw input is empty exactly if no flow reads it. -/
  answers : ∀ slot, answers[slot]? = some none ↔
    slot < g.rawInputs.length ∧ ∀ f ∈ g.flows, Source.raw slot ∉ f.inputs

/-- What arrives in a walk over all flows, place by place. -/
theorem arrived_eq {g g' : Graph} {steps : List BackwardStep}
    (horder : steps.map BackwardStep.id = g.references.order.reverse)
    (hbuilt : ∀ s ∈ steps, s.Builds g ∧ g'.flows[s.id]? = some s.after ∧
      s.gradients.length = s.flow.inputs.length) (source : Source) :
    (arrived steps source).map some =
      (g.places source).map fun place => g'.inputGradient? place.1 place.2 := by
  rw [arrived, places, gradientsInto]
  -- Both sides go through the walk flow by flow.
  rw [← horder, List.filterMap_flatMap, List.map_flatMap, List.flatMap_map, List.map_flatMap]
  apply List.flatMap_congr
  intro s hs
  obtain ⟨hbuilds, hafter, hlength⟩ := hbuilt s hs
  have hpositions := positions_of_gradientsInto hlength source
  rw [gradientsInto] at hpositions
  rw [inputsOf_eq hbuilds.flow, List.map_map]
  refine hpositions.trans (List.map_congr_left fun k _ => ?_)
  simp [inputGradient?, hafter, BackwardStep.after, BuildState.inputGradients?]

/-- The flows that read a flow come before it in a walk against the order of evaluation. -/
theorem mem_before_of_mem_places {g : Graph} (hsound : Sound g.rawInputs.length g.flows)
    {steps : List BackwardStep} (horder : steps.map BackwardStep.id = g.references.order.reverse) :
    ∀ before s after, steps = before ++ s :: after →
      ∀ place ∈ g.places (.flow s.id), place.1 ∈ before.map BackwardStep.id := by
  rintro before s after rfl ⟨reader, k⟩ hplace
  obtain ⟨f, hf, hk⟩ := (mem_places hsound).mp hplace
  have hread : g.references.Reads reader s.id := reads_iff.mpr ⟨f, hf, List.mem_of_getElem? hk⟩
  rw [List.map_append, List.map_cons] at horder
  exact References.mem_done_of_reads_reverse hsound.acyclic_references hsound.inRange_references
    horder.symm hread

/-- Neither a flow nor those that come after it in the walk read the flow. -/
theorem not_mem_inputs_of_walk {g : Graph} (hsound : Sound g.rawInputs.length g.flows)
    {steps : List BackwardStep} (horder : steps.map BackwardStep.id = g.references.order.reverse)
    (hflows : ∀ s ∈ steps, g.flows[s.id]? = some s.flow) :
    ∀ before s rest, steps = before ++ s :: rest →
      ∀ t ∈ s :: rest, Source.flow s.id ∉ t.flow.inputs := by
  intro before s rest heq t ht hmem
  obtain ⟨k, hk⟩ := List.mem_iff_getElem?.mp hmem
  have hflow := hflows t (heq ▸ List.mem_append_right _ ht)
  have hplace : (t.id, k) ∈ g.places (.flow s.id) := (mem_places hsound).mpr ⟨_, hflow, hk⟩
  have hdone := mem_before_of_mem_places hsound horder before s rest heq (t.id, k) hplace
  -- The flow would stand twice in the order.
  have honce : (steps.map BackwardStep.id).Nodup :=
    horder ▸ List.nodup_reverse.mpr (References.order_nodup g.references)
  rw [heq, List.map_append, List.nodup_append] at honce
  exact honce.2.2 t.id hdone t.id (List.mem_map_of_mem ht) rfl

/-- A flow has been in order since it was last touched, so it gets a gradient for each of its
sources. -/
theorem WellFormed.length_gradients {g : Graph} (h : g.WellFormed) {s : BackwardStep}
    (hbuilds : s.Builds g) : s.gradients.length = s.flow.inputs.length := by
  have hcoherent := (h.flows s.flow (List.mem_of_getElem? hbuilds.flow)).coherent
  have hforward : s.flow.state.forward? = some s.forward := by
    rw [hbuilds.state]
    rfl
  exact (hcoherent.built s.forward hforward).length_gradients hbuilds.own

/-- A source at which nothing arrives is read by no flow. -/
theorem arrived_eq_nil_iff {g g' : Graph} {steps : List BackwardStep} {source : Source}
    (harrived : (arrived steps source).map some =
      (g.places source).map fun place => g'.inputGradient? place.1 place.2) :
    arrived steps source = [] ↔ g.places source = [] := by
  rw [← List.map_eq_nil_iff, harrived, List.map_eq_nil_iff]

/-- A backward build of a well formed graph on a backend under observation. -/
theorem WellFormed.routed {g g' : Graph} (h : g.WellFormed) {o o' : Observed β}
    {answers : List (Option Handle)}
    (hrun : buildBackwardAll.Yields (g, o) answers (g', o')) :
    ∃ steps calls, o'.calls = o.calls ++ calls ∧ Routed g g' steps answers calls := by
  -- First the order is found, then the flows are walked, then the raw inputs are summed up.
  obtain ⟨analysis, _, hzoom, hwalk⟩ := yields_bind.mp hrun
  obtain ⟨g₁, hverify, rfl⟩ := yields_zoom.mp hzoom
  obtain ⟨rfl, rfl⟩ := h.yields_ensureVerified.unique hverify
  obtain ⟨handed, ⟨g₂, o₂⟩, hsteps, hraw⟩ := yields_bind.mp hwalk
  obtain ⟨steps, hids, hvisits, hbuilds, rfl, hfirst⟩ := yields_buildBackwardIn hsteps
  rw [show g.references.analysis.order = g.references.order from rfl] at hids
  rw [List.nil_append] at hraw
  have hanswers := yields_get_bind.mp hraw
  obtain ⟨o₃, hanswers, heq⟩ := yields_zoom.mp hanswers
  obtain ⟨rfl, rfl⟩ := Prod.mk.inj heq
  obtain ⟨hall, hsecond⟩ := yields_rawGradients hanswers
  have honce : (steps.map BackwardStep.id).Nodup :=
    hids ▸ List.nodup_reverse.mpr (References.order_nodup g.references)
  have hbuilt : ∀ s ∈ steps, s.Builds g ∧ g'.flows[s.id]? = some s.after ∧
      s.gradients.length = s.flow.inputs.length := by
    intro s hs
    obtain ⟨hstate, hown⟩ := hbuilds s hs
    have hvisited : ((steps.map BackwardStep.visit).map Visit.id).Nodup := by
      rw [List.map_map]
      exact honce
    obtain ⟨hflow, hafter⟩ := hvisits.found hvisited (List.mem_map_of_mem hs)
    have hstep : s.Builds g := ⟨hflow, hstate, hown⟩
    exact ⟨hstep, hafter, h.length_gradients hstep⟩
  have hlate := not_mem_inputs_of_walk h.sound hids fun s hs => (hbuilt s hs).1.flow
  have harrived := arrived_eq hids hbuilt
  have hkept : g'.rawInputs = g.rawInputs := hvisits.rawInputs_eq
  rw [hkept] at hall hsecond
  refine ⟨steps, _, ?_, {
    rawInputs := hkept
    inputs := hvisits.inputs_eq
    order := hids
    once := honce
    every := fun id => ?_
    built := hbuilt
    places := fun source => ⟨nodup_places g source, fun place => mem_places h.sound⟩
    arrived := harrived
    earlier := mem_before_of_mem_places h.sound hids
    seeded := fun s hs => ?_
    calls := rfl
    own := fun s hs => (hbuilt s hs).1.own.isTransfer
    length_answers := ?_
    answers := fun slot => ?_ }⟩
  · rw [hsecond, hfirst, walkCalls_eq hlate, List.append_assoc]
    rfl
  · rw [hids, List.mem_reverse, References.mem_order h.sound.acyclic_references
      h.sound.inRange_references, length_references, size]
  · rw [arrived_eq_nil_iff (harrived _), places_flow_eq_nil_iff h.sound]
  · rw [← hall.length_eq, List.length_range]
  · rw [← places_eq_nil_iff h.sound, ← arrived_eq_nil_iff (harrived _)]
    by_cases hslot : slot < g.rawInputs.length
    · obtain ⟨answer, hanswer, hnone⟩ := Traversal.exists_getElem?_of_forall₂ hall
        (List.getElem?_range hslot)
      rw [hanswer, Option.some.injEq, hnone]
      exact (and_iff_right hslot).symm
    · rw [List.getElem?_eq_none (by rw [← hall.length_eq, List.length_range]; omega)]
      simp [hslot]

/-- Every gradient of a backward build reaches the source it belongs to exactly once: for every
backend, the requests made of it are those of a walk that routes them so. -/
theorem buildBackwardAll_routes {s s' : Graph × β} (h : s.1.Reachable)
    {answers : List (Option Handle)} (hrun : buildBackwardAll.Yields s answers s') :
    ∃ (o' : Observed β) (steps : List BackwardStep),
      buildBackwardAll.Yields (s.1, (⟨s.2, []⟩ : Observed β)) answers (s'.1, o') ∧
        o'.inner = s'.2 ∧ Routed s.1 s'.1 steps answers o'.calls := by
  have halike := related_buildBackwardAll (Observed.alike (β := β))
  obtain ⟨⟨g', o'⟩, hobserved, heq, hinner⟩ :=
    halike.yields_left (s := (s.1, ⟨s.2, []⟩)) ⟨rfl, rfl⟩ hrun
  obtain rfl : g' = s'.1 := heq
  obtain ⟨steps, calls, hcalls, hrouted⟩ := h.wellFormed.routed hobserved
  rw [List.nil_append] at hcalls
  exact ⟨o', steps, hobserved, hinner, hcalls ▸ hrouted⟩

/-- The document with a shared flow, inferred and built forward on a tape. -/
def diamondForward : Graph × Tape :=
  ((buildForwardAll [⟨0⟩]).run ((inferAll.run diamond).state, ⟨#[.readInput 0], none⟩)).state

theorem reachable_diamondForward : diamondForward.1.Reachable :=
  (reachable_diamond.step (.inferAll _)).step (.buildForwardAll _ _ _)

/-- The two flows that read the shared one hand their gradients to it, last reader first. -/
theorem buildBackwardAll_routes_diamond : ∃ (o' : Observed Tape) (steps : List BackwardStep),
    Routed diamondForward.1 (buildBackwardAll.run diamondForward).state.1 steps [some ⟨13⟩]
      o'.calls ∧ arrived steps (.flow 0) = [⟨11⟩, ⟨9⟩] := by
  have hok : (buildBackwardAll.run diamondForward).result = .ok [some ⟨13⟩] := by
    decide +kernel
  obtain ⟨o', steps, -, -, hrouted⟩ :=
    buildBackwardAll_routes reachable_diamondForward (yields_of_result hok)
  refine ⟨o', steps, hrouted, ?_⟩
  have harrived := hrouted.arrived (.flow 0)
  have hplaces : (diamondForward.1.places (.flow 0)).map (fun place =>
      (buildBackwardAll.run diamondForward).state.1.inputGradient? place.1 place.2) =
      [⟨11⟩, ⟨9⟩].map some := by
    decide +kernel
  exact List.map_injective_iff.mpr (Option.some_injective _) (harrived.trans hplaces)

end Graph

end LayerFlow
