/-
LayerFlow.Proofs.Flow.History

Histories of a flow: lists of uses, each of which may succeed or fail, from a flow that was made
anew or read.  The shapes that a flow has belong to the layers and sources it has at that time,
and the nodes it has are those of its last forward build that succeeded.  Whatever replaces
sources, layers or shapes drops the nodes first, so none of these has changed since that build.

Main statement: `after_consistent`.
-/
import LayerFlow.Backend.Tape
import LayerFlow.Proofs.Flow.Reachable
import LayerFlow.Proofs.Graph.Evaluation
import LayerFlow.Proofs.Graph.Reachable

namespace LayerFlow

open Op Traversal

namespace Flow

/-! ## Uses -/

/-- An inference that asks for the shape of a source place by place; equal sources at two places
may be answered differently. -/
def inferAt (answer : Nat → Except Failure Shape) (f : Flow) : Flow :=
  if f.inputs = [] then f.clear
  else
    match (List.range f.inputs.length).mapM answer >>= shapesFrom f.layers with
    | .ok shapes => f.withShapes shapes
    | .error _ => f.clear

/-- An inference that asks source by source is one that asks place by place. -/
theorem state_infer (f : Flow) (resolve : Resolver) :
    ((infer resolve).run f).state =
      f.inferAt fun place => resolve (f.inputs.getD place (.raw 0)) := by
  have hplaces : (List.range f.inputs.length).map (fun place => f.inputs.getD place (.raw 0)) =
      f.inputs := by
    apply List.ext_getElem
    · simp
    · intro place _ hinput
      simp [List.getElem?_eq_getElem hinput]
  have hanswers : (List.range f.inputs.length).mapM
      (fun place => resolve (f.inputs.getD place (.raw 0))) = f.inputs.mapM resolve := by
    conv => rhs; rw [← hplaces, List.mapM_map]
    rfl
  rw [inferAt, hanswers]
  split
  · next hnil => exact (infer_error (evaluate_of_inputs_eq_nil resolve hnil)).2
  next hne =>
  cases hsources : f.inputs.mapM resolve with
  | error e =>
    have hevaluate : f.evaluate resolve = .error e := by
      rw [evaluate, inputShapes, if_neg (by simpa using hne), hsources]
      rfl
    exact (infer_error hevaluate).2
  | ok sources =>
    have hevaluate := evaluate_of_mapM hne hsources
    show _ = match shapesFrom f.layers sources with
      | .ok shapes => f.withShapes shapes
      | .error _ => f.clear
    cases hshapes : shapesFrom f.layers sources with
    | ok shapes => exact (infer_ok (hevaluate.trans hshapes)).2
    | error e => exact (infer_error (hevaluate.trans hshapes)).2

/-- A use of a flow. -/
inductive Use : Type 1
  | rename (label : String)
  | reset
  | clear
  | setInputs (inputs : List Source)
  | pushLayer (l : Layer)
  | insertLayer (index : Nat) (l : Layer)
  | removeLayer (index : Nat)
  | moveLayer (start stop : Nat)
  | modifyLayer (index : Nat) (change : Layer → Layer)
  | infer (resolve : Resolver)
  | inferAt (answer : Nat → Except Failure Shape)
  | buildForward {β : Type} [Backend β] (b : β) (raw : List Handle)
      (outputs : List (Option Handle)) (alignment : Nat)
  | buildBackward {β : Type} [Backend β] (b : β) (outputGradient : Handle)

namespace Use

/-- What a use leaves of a flow; an edit that is refused leaves all of it. -/
def run : Use → Flow → Flow
  | .rename label, f => f.withLabel label
  | .reset, f => f.reset
  | .clear, f => f.clear
  | .setInputs inputs, f => f.withInputs inputs
  | .pushLayer l, f => f.pushLayer l
  | .insertLayer index l, f => (f.insertLayer index l).toOption.getD f
  | .removeLayer index, f => ((f.removeLayer index).toOption.map Prod.snd).getD f
  | .moveLayer start stop, f => (f.moveLayer start stop).toOption.getD f
  | .modifyLayer index change, f => f.modifyLayer index change
  | .infer resolve, f => ((Flow.infer resolve).run f).state
  | .inferAt answer, f => f.inferAt answer
  | @Use.buildForward _ _ b raw outputs alignment, f =>
    ((Flow.buildForward raw outputs alignment).run (f, b)).state.1
  | @Use.buildBackward _ _ b outputGradient, f =>
    ((Flow.buildBackward outputGradient).run (f, b)).state.1

/-- Whether a use of a flow is a forward build that succeeds. -/
def Builds (f : Flow) : Use → Prop
  | @Use.buildForward _ _ b raw outputs alignment =>
    ∃ output, ((Flow.buildForward raw outputs alignment).run (f, b)).result = .ok output
  | _ => False

/-- The requests that a use of a flow makes of its backend, each with its answer. -/
def requests : Use → Flow → List Call
  | @Use.buildForward _ _ b raw outputs alignment, f =>
    ((Flow.buildForward raw outputs alignment).run (f, (⟨b, []⟩ : Observed _))).state.2.calls
  | @Use.buildBackward _ _ b outputGradient, f =>
    ((Flow.buildBackward outputGradient).run (f, (⟨b, []⟩ : Observed _))).state.2.calls
  | _, _ => []

end Use

/-- The flow after some uses. -/
def after (start : Flow) (uses : List Use) : Flow := uses.foldl (fun f u => u.run f) start

@[simp] theorem after_nil (start : Flow) : start.after [] = start := rfl

@[simp] theorem after_append (start : Flow) (uses more : List Use) :
    start.after (uses ++ more) = (start.after uses).after more := List.foldl_append ..

@[simp] theorem after_singleton (start : Flow) (u : Use) : start.after [u] = u.run start := rfl

/-- A flow at the beginning of its history: made anew, or read. -/
inductive Begins : Flow → Prop
  | fresh (label : String) (inputs : List Source) (layers : List Layer) :
      Begins (.fresh label inputs layers)
  | read {v : Json} {f : Flow} (h : Document.decode? v = some f) : Begins f

/-! ## What one use does -/

/-- An inference ends with shapes that fit, or without any. -/
theorem inferAt_cases (answer : Nat → Except Failure Shape) (f : Flow) :
    (∃ shapes, f.Fits shapes ∧ f.inferAt answer = f.withShapes shapes) ∨
      f.inferAt answer = f.clear := by
  rw [inferAt]
  split
  · exact .inr rfl
  next hne =>
  split
  · next shapes hshapes =>
    obtain ⟨sources, hsources, hmade⟩ := bind_eq_ok_iff.mp hshapes
    obtain ⟨input, hinput, hchained⟩ := bind_eq_ok_iff.mp hmade
    obtain ⟨⟨layerInputs, output⟩, hchain, heq⟩ := bind_eq_ok_iff.mp hchained
    obtain rfl := pure_eq_ok_iff.mp heq
    have hlength := length_of_mapM_eq_ok hsources
    rw [List.length_range] at hlength
    exact .inl ⟨_, ⟨hne, hlength, hinput, hchain⟩, rfl⟩
  · exact .inr rfl

/-- A use takes a flow through steps, unless it replaces the sources; that is left to the graph. -/
theorem Use.steps {u : Use} (hinputs : ∀ inputs, u ≠ .setInputs inputs) (f : Flow) :
    Relation.ReflTransGen Step f (u.run f) := by
  cases u with
  | rename label => exact .single (.withLabel f label)
  | reset => exact .single (.reset f)
  | clear => exact .single (.notInferred f)
  | setInputs inputs => exact absurd rfl (hinputs inputs)
  | pushLayer l => exact .single (.pushLayer f l)
  | insertLayer index l =>
    rw [Use.run]
    cases hinsert : f.insertLayer index l with
    | ok f' => exact .single (.insertLayer hinsert)
    | error e => exact .refl
  | removeLayer index =>
    rw [Use.run]
    cases hremove : f.removeLayer index with
    | ok removed => exact .single (.removeLayer hremove)
    | error e => exact .refl
  | moveLayer start stop =>
    rw [Use.run]
    cases hmove : f.moveLayer start stop with
    | ok f' => exact .single (.moveLayer hmove)
    | error e => exact .refl
  | modifyLayer index change => exact .single (.modifyLayer f index change)
  | infer resolve => exact .single (step_infer f resolve)
  | inferAt answer =>
    rw [Use.run]
    rcases inferAt_cases answer f with ⟨shapes, hfits, heq⟩ | heq
    · rw [heq]
      exact .single (.inferred hfits)
    · rw [heq]
      exact .single (.notInferred f)
  | buildForward b raw outputs alignment => exact .single (.buildForward f b raw outputs alignment)
  | buildBackward b outputGradient => exact .single (.buildBackward f b outputGradient)

/-- A flow stays reachable, whatever is done with it. -/
theorem Reachable.use {f : Flow} (h : f.Reachable) (u : Use) : (u.run f).Reachable := by
  by_cases hinputs : ∃ inputs, u = .setInputs inputs
  · obtain ⟨inputs, rfl⟩ := hinputs
    exact h.withInputs inputs
  · exact (h.steps (Use.steps (fun inputs heq => hinputs ⟨inputs, heq⟩) f)).1

theorem Reachable.after {f : Flow} (h : f.Reachable) (uses : List Use) :
    (f.after uses).Reachable := by
  induction uses generalizing f with
  | nil => exact h
  | cons u rest ih => exact ih (h.use u)

/-- A use drops the nodes of a flow, or it builds new ones, or it leaves them together with the
sources, layers and shapes that they were built for. -/
theorem Use.forward?_cases (u : Use) (f : Flow) :
    (u.run f).state.forward? = none ∨ u.Builds f ∨
      (u.run f).state.forward? = f.state.forward? ∧ Kept f (u.run f) := by
  cases u with
  | rename label => exact .inr (.inr ⟨rfl, rfl, rfl, rfl⟩)
  | reset => exact .inl rfl
  | clear => exact .inl rfl
  | setInputs inputs => exact .inl rfl
  | pushLayer l => exact .inl rfl
  | insertLayer index l =>
    rw [Use.run]
    cases hinsert : f.insertLayer index l with
    | ok f' =>
      have hstate := (insertLayer_label hinsert).2.2
      exact .inl (by rw [Except.toOption, Option.getD_some, hstate]; rfl)
    | error e => exact .inr (.inr ⟨rfl, .refl f⟩)
  | removeLayer index =>
    rw [Use.run]
    cases hremove : f.removeLayer index with
    | ok removed =>
      obtain ⟨layers, heq⟩ := exists_withLayers_of_removeLayer hremove
      exact .inl (by rw [Except.toOption, Option.map_some, Option.getD_some, heq]; rfl)
    | error e => exact .inr (.inr ⟨rfl, .refl f⟩)
  | moveLayer start stop =>
    rw [Use.run]
    cases hmove : f.moveLayer start stop with
    | ok f' =>
      obtain ⟨layers, rfl⟩ := exists_withLayers_of_moveLayer hmove
      exact .inl rfl
    | error e => exact .inr (.inr ⟨rfl, .refl f⟩)
  | modifyLayer index change => exact .inl rfl
  | infer resolve =>
    rw [Use.run, state_infer]
    rcases inferAt_cases _ f with ⟨shapes, -, heq⟩ | heq <;> exact .inl (by rw [heq]; rfl)
  | inferAt answer =>
    rw [Use.run]
    rcases inferAt_cases answer f with ⟨shapes, -, heq⟩ | heq <;> exact .inl (by rw [heq]; rfl)
  | buildForward b raw outputs alignment =>
    rcases yields_or_fails (Flow.buildForward raw outputs alignment) (f, b) with
      ⟨output, hyields⟩ | ⟨e, hfails⟩
    · exact .inr (.inl ⟨output, hyields.1⟩)
    · refine .inr (.inr ⟨?_, kept_buildForward f raw outputs alignment (f, b) (.refl f)⟩)
      rw [Use.run, state_of_fails_buildForward hfails]
  | buildBackward b outputGradient =>
    rw [Use.run]
    rcases buildBackward_keeps f b outputGradient with heq | ⟨forward, gradients, hstate, heq⟩
    · rw [heq]
      exact .inr (.inr ⟨rfl, .refl f⟩)
    · rw [heq, hstate]
      exact .inr (.inr ⟨rfl, rfl, rfl, rfl⟩)

/-- The nodes that a forward build leaves are those of its requests, which it makes on the handles
of the sources. -/
theorem Use.Builds.spec {u : Use} {f : Flow} (h : u.Builds f) (hcoherent : f.Coherent) :
    ∃ raw outputs alignment forward, (u.run f).state = .forwardBuilt forward ∧
      BuildForwardCalls f raw outputs alignment forward (u.requests f) ∧ Kept f (u.run f) := by
  cases u with
  | buildForward b raw outputs alignment =>
    obtain ⟨output, hresult⟩ := h
    -- Under observation the build is the same, and its requests tell what it leaves.
    obtain ⟨⟨f', o⟩, hobserved, heq, -⟩ :=
      (related_buildForward Observed.alike raw outputs alignment).yields_left
        (s := (f, ⟨b, []⟩)) ⟨rfl, rfl⟩ (yields_of_result hresult)
    have hstate := (checkForward_of_yields_buildForward hobserved).1
    have hfits : f.Fits f.shapes := hcoherent.fits (by rw [hstate]; simp)
    obtain ⟨-, forward, calls, hcalls, hf', -, happend⟩ := yields_buildForward hfits hobserved
    have hrequests : o.calls = calls := happend
    refine ⟨raw, outputs, alignment, forward, ?_, ?_,
      kept_buildForward f raw outputs alignment (f, b) (.refl f)⟩
    · rw [Use.run, ← heq, hf']
    · rw [requests, hobserved.2, hrequests]
      exact hcalls
  | _ => exact h.elim

/-! ## What a history leaves -/

/-- Known shapes, from the sources through the layers to the output. -/
structure Measured (f : Flow) : Prop where
  inputs_ne_nil : f.inputs ≠ []
  length_sources : f.shapes.sources.length = f.inputs.length
  combine : Shape.combine f.shapes.sources = .ok f.shapes.input
  length_layerInputs : f.shapes.layerInputs.length = f.layers.length
  first : (f.shapes.layerInputs ++ [f.shapes.output]).head? = some f.shapes.input
  next : ∀ place l, f.layers[place]? = some l → ∃ s made,
    f.shapes.layerInputs[place]? = some s ∧
      (f.shapes.layerInputs ++ [f.shapes.output])[place + 1]? = some made ∧
      l.outputShape s = .ok made

theorem next_of_chain {layers : List Layer} {input output : Shape} {inputs : List Shape}
    (h : chain layers input = .ok (inputs, output)) :
    (inputs ++ [output]).head? = some input ∧ ∀ place l, layers[place]? = some l → ∃ s made,
      inputs[place]? = some s ∧ (inputs ++ [output])[place + 1]? = some made ∧
        l.outputShape s = .ok made := by
  induction layers generalizing input inputs with
  | nil =>
    cases h
    exact ⟨rfl, by simp⟩
  | cons first rest ih =>
    obtain ⟨made, hmade, hrest⟩ := bind_eq_ok_iff.mp h
    obtain ⟨⟨more, last⟩, hchain, heq⟩ := bind_eq_ok_iff.mp hrest
    cases pure_eq_ok_iff.mp heq
    obtain ⟨hhead, hnext⟩ := ih hchain
    refine ⟨rfl, fun place l hl => ?_⟩
    cases place with
    | zero =>
      cases hl
      rw [List.head?_eq_getElem?] at hhead
      exact ⟨input, made, rfl, hhead, hmade⟩
    | succ place => exact hnext place l hl

theorem Fits.measured {f : Flow} (h : f.Fits f.shapes) : f.Measured where
  inputs_ne_nil := h.inputs_ne_nil
  length_sources := h.length_sources
  combine := h.combine
  length_layerInputs := h.length_layerInputs
  first := (next_of_chain h.chain).1
  next := (next_of_chain h.chain).2

/-- Of all uses of a flow, `build` was the last forward build that succeeded; it left the nodes
`forward`, and since then sources, shapes and layers up to their stores have stayed. -/
structure LastBuild (start : Flow) (before : List Use) (build : Use) (later : List Use)
    (forward : ForwardNodes) : Prop where
  succeeds : build.Builds (start.after before)
  nodes : (build.run (start.after before)).state = .forwardBuilt forward
  last : ∀ done u, done ++ [u] <+: later →
    ¬ u.Builds ((build.run (start.after before)).after done)
  kept : ∀ done, done <+: later →
    Kept (start.after before) ((build.run (start.after before)).after done)

theorem LastBuild.snoc {start : Flow} {before later : List Use} {build u : Use}
    {forward : ForwardNodes} (h : LastBuild start before build later forward)
    (hbuilds : ¬ u.Builds ((build.run (start.after before)).after later))
    (hkept : Kept ((build.run (start.after before)).after later)
      (u.run ((build.run (start.after before)).after later))) :
    LastBuild start before build (later ++ [u]) forward where
  succeeds := h.succeeds
  nodes := h.nodes
  last := by
    intro done v hprefix
    rcases List.prefix_concat_iff.mp hprefix with heq | hearlier
    · obtain ⟨rfl, hlast⟩ := List.append_inj' heq rfl
      obtain rfl := List.singleton_inj.mp hlast
      exact hbuilds
    · exact h.last done v hearlier
  kept := by
    intro done hprefix
    rcases List.prefix_concat_iff.mp hprefix with rfl | hearlier
    · rw [after_append]
      exact (h.kept later (List.prefix_refl later)).trans hkept
    · exact h.kept done hearlier

/-- The nodes that a flow has are those of its last forward build that succeeded. -/
theorem exists_lastBuild {start : Flow} (hreach : start.Reachable)
    (hstart : start.state.forward? = none) {uses : List Use} {forward : ForwardNodes}
    (h : (start.after uses).state.forward? = some forward) :
    ∃ before build later, uses = before ++ build :: later ∧
      LastBuild start before build later forward := by
  induction uses using List.reverseRecOn with
  | nil =>
    rw [after_nil, hstart] at h
    cases h
  | append_singleton uses u ih =>
    rw [after_append, after_singleton] at h
    by_cases hbuilds : u.Builds (start.after uses)
    · -- The last use was the build.
      obtain ⟨_, _, _, built, hstate, -, hkept⟩ := hbuilds.spec (hreach.after uses).coherent
      rw [hstate] at h
      cases h
      refine ⟨uses, u, [], rfl, hbuilds, hstate, fun done v hprefix => ?_, fun done hprefix => ?_⟩
      · simp at hprefix
      · rw [List.prefix_nil.mp hprefix]
        exact hkept
    · rcases u.forward?_cases (start.after uses) with hnone | hyes | ⟨hsame, hkept⟩
      · rw [hnone] at h
        cases h
      · exact absurd hyes hbuilds
      · -- The nodes were there before the last use, and so was their build.
        obtain ⟨before, build, later, rfl, hlast⟩ := ih (hsame ▸ h)
        have heq : start.after (before ++ build :: later) =
            (build.run (start.after before)).after later := by
          rw [after_append]
          rfl
        rw [heq] at hbuilds hkept
        exact ⟨before, build, later ++ [u], by simp, hlast.snoc hbuilds hkept⟩

/-- Where a build ends: at its last layer, or where its layers start. -/
def endsAt (forward : ForwardNodes) : Option Handle :=
  forward.layers.getLast?.or
    (match forward.fusion with
    | some nodes => some nodes.contraction
    | none => forward.inputs.head?)

theorem BuildForwardCalls.endsAt_eq {f : Flow} {raw : List Handle}
    {outputs : List (Option Handle)} {alignment : Nat} {forward : ForwardNodes}
    {calls : List Call} (h : BuildForwardCalls f raw outputs alignment forward calls) :
    endsAt forward = some forward.output := by
  cases h with
  | @intro sources nodes fusion start _ _ hsources hfusion hlayers =>
    rw [endsAt]
    cases hlast : nodes.getLast? with
    | some node => rfl
    | none => cases hfusion <;> rfl

theorem LastBuild.endsAt_eq {start : Flow} (hreach : start.Reachable) {before later : List Use}
    {build : Use} {forward : ForwardNodes} (h : LastBuild start before build later forward) :
    endsAt forward = some forward.output := by
  obtain ⟨_, _, _, built, hstate, hcalls, -⟩ := h.succeeds.spec (hreach.after before).coherent
  rw [h.nodes] at hstate
  cases hstate
  exact hcalls.endsAt_eq

theorem Begins.eq_fresh {f : Flow} (h : f.Begins) :
    ∃ label inputs layers, f = .fresh label inputs layers := by
  cases h with
  | fresh label inputs layers => exact ⟨label, inputs, layers, rfl⟩
  | read hread => exact Graph.exists_fresh_of_decode hread

theorem Begins.state_eq {f : Flow} (h : f.Begins) : f.state = .unbuilt := by
  obtain ⟨label, inputs, layers, rfl⟩ := h.eq_fresh
  rfl

theorem Begins.reachable {f : Flow} (h : f.Begins) : f.Reachable := by
  obtain ⟨label, inputs, layers, rfl⟩ := h.eq_fresh
  exact .fresh label inputs layers

/-- Whatever was done with a flow, and however it ended: in every stage but the first its shapes
are those of its sources and layers as they are now; the nodes it has are those of its last forward
build that succeeded, for sources, shapes and layers that have stayed since; and it has a gradient
for each source once it is built backward. -/
theorem after_consistent {start : Flow} (h : start.Begins) (uses : List Use) :
    ((start.after uses).state ≠ .unbuilt → (start.after uses).Measured) ∧
    (∀ forward, (start.after uses).state.forward? = some forward →
      (∃ before build later, uses = before ++ build :: later ∧
        LastBuild start before build later forward) ∧
      (start.after uses).Built forward ∧ endsAt forward = some forward.output) ∧
    ∀ gradients, (start.after uses).state.inputGradients? = some gradients →
      gradients.length = (start.after uses).inputs.length := by
  have hcoherent := (h.reachable.after uses).coherent
  refine ⟨fun hne => (hcoherent.fits hne).measured, fun forward hforward => ?_,
    hcoherent.gradients⟩
  have hstart : start.state.forward? = none := by rw [h.state_eq]; rfl
  obtain ⟨before, build, later, huses, hlast⟩ := exists_lastBuild h.reachable hstart hforward
  exact ⟨⟨before, build, later, huses, hlast⟩, hcoherent.built forward hforward,
    hlast.endsAt_eq h.reachable⟩

/-- Two sources, and a layer that has a parameter store. -/
def stacked : Flow := .fresh "stacked" [.raw 0, .raw 1] [.normalization (.ofKind .batch)]

/-- The nodes of the sources. -/
def stackedTape : Tape := ⟨#[.readInput 0, .readInput 1], none⟩

/-- A whole cycle, with a build and an edit that are refused on the way. -/
def stackedUses : List Use :=
  let inference : Resolver := fun _ => .ok ⟨4, 4, 3, 1⟩
  let inferred := ((infer inference).run stacked).state
  let recorded := ((buildForward [⟨0⟩, ⟨1⟩] [] 4).run (inferred, stackedTape)).state.2
  [.infer inference, .buildForward stackedTape [⟨0⟩, ⟨1⟩] [] 4,
    .buildForward stackedTape [⟨0⟩, ⟨1⟩] [] 4, .removeLayer 1, .buildBackward recorded ⟨4⟩]

/-- After the cycle the flow has the nodes of the first build, and two gradients. -/
theorem after_consistent_stacked :
    ∃ forward gradients, (stacked.after stackedUses).state = .backwardBuilt forward gradients ∧
      (stacked.after stackedUses).Measured ∧
      (∃ before build later, stackedUses = before ++ build :: later ∧
        LastBuild stacked before build later forward) ∧
      gradients.length = 2 := by
  have hbegins : Begins stacked := .fresh _ _ _
  obtain ⟨hmeasured, hnodes, hgradients⟩ := after_consistent hbegins stackedUses
  have hbuilt : (stacked.after stackedUses).state.stage = .backwardBuilt := rfl
  cases hstate : (stacked.after stackedUses).state with
  | backwardBuilt forward gradients =>
    rw [hstate] at hmeasured hnodes hgradients
    exact ⟨forward, gradients, rfl, hmeasured (by simp), (hnodes forward rfl).1,
      hgradients gradients rfl⟩
  | _ =>
    rw [hstate] at hbuilt
    cases hbuilt

end Flow

end LayerFlow
