/-
LayerFlow.Proofs.Flow.Reachable

The flows that any history of edits, inferences and builds can leave behind, whichever backend
the builds ran on and however they ended.  What a flow knows of itself always belongs to the
layers and sources it has now: edits forget it, an inference replaces it, and a build changes
nothing of the layers but their parameter stores.

Main statements: `Reachable.coherent`, what every such flow keeps, and `kept_buildForward`, what
a forward build leaves alone even if it fails.
-/
import LayerFlow.Proofs.Flow.Calls
import Mathlib.Logic.Relation

namespace LayerFlow.Flow

open Op

/-! ## Steps -/

/-- One use of a flow: an edit, an inference with any way to find the shapes of the sources, or a
build on any backend. -/
inductive Step : Flow → Flow → Prop
  | withLabel (f : Flow) (label : String) : Step f (f.withLabel label)
  | reset (f : Flow) : Step f f.reset
  | pushLayer (f : Flow) (l : Layer) : Step f (f.pushLayer l)
  | insertLayer {f f' : Flow} {index : Nat} {l : Layer}
      (h : f.insertLayer index l = .ok f') : Step f f'
  | removeLayer {f f' : Flow} {index : Nat} {l : Layer}
      (h : f.removeLayer index = .ok (l, f')) : Step f f'
  | moveLayer {f f' : Flow} {start stop : Nat} (h : f.moveLayer start stop = .ok f') : Step f f'
  | modifyLayer (f : Flow) (index : Nat) (change : Layer → Layer) :
      Step f (f.modifyLayer index change)
  /-- The shapes of the sources may come from anywhere, as long as they fit. -/
  | inferred {f : Flow} {shapes : FlowShapes} (h : f.Fits shapes) : Step f (f.withShapes shapes)
  | notInferred (f : Flow) : Step f f.clear
  | buildForward {β : Type} [Backend β] (f : Flow) (b : β) (raw : List Handle)
      (outputs : List (Option Handle)) (alignment : Nat) :
      Step f ((Flow.buildForward raw outputs alignment).run (f, b)).state.1
  | buildBackward {β : Type} [Backend β] (f : Flow) (b : β) (outputGradient : Handle) :
      Step f ((Flow.buildBackward outputGradient).run (f, b)).state.1

/-- The flows that come out of some history; the graph also edits the sources. -/
inductive Reachable : Flow → Prop
  | fresh (label : String) (inputs : List Source) (layers : List Layer) :
      Reachable (.fresh label inputs layers)
  | withInputs {f : Flow} (h : Reachable f) (inputs : List Source) :
      Reachable (f.withInputs inputs)
  | step {f f' : Flow} (h : Reachable f) (hstep : Step f f') : Reachable f'

/-- An inference with a given way to find the shapes of the sources is a step. -/
theorem step_infer (f : Flow) (resolve : Resolver) : Step f ((infer resolve).run f).state := by
  cases h : f.evaluate resolve with
  | ok shapes =>
    rw [(infer_ok h).2]
    exact .inferred (fits_of_evaluate h)
  | error e =>
    rw [(infer_error h).2]
    exact .notInferred f

theorem exists_withLayers_of_removeLayer {f f' : Flow} {index : Nat} {l : Layer}
    (h : f.removeLayer index = .ok (l, f')) : ∃ layers, f' = f.withLayers layers := by
  rw [removeLayer] at h
  split at h
  · cases h
    exact ⟨_, rfl⟩
  · cases h

theorem exists_withLayers_of_moveLayer {f f' : Flow} {start stop : Nat}
    (h : f.moveLayer start stop = .ok f') : ∃ layers, f' = f.withLayers layers := by
  rw [moveLayer] at h
  split at h
  · cases h
  split at h
  · cases h
    exact ⟨_, rfl⟩
  · cases h

/-! ## What builds leave alone -/

/-- Sources and shapes are the same, and the layers up to their parameter stores. -/
structure Kept (f f' : Flow) : Prop where
  inputs : f'.inputs = f.inputs
  shapes : f'.shapes = f.shapes
  layers : f'.layers.map Layer.bare = f.layers.map Layer.bare

theorem Kept.refl (f : Flow) : Kept f f := ⟨rfl, rfl, rfl⟩

theorem Kept.trans {f f' f'' : Flow} (h : Kept f f') (h' : Kept f' f'') : Kept f f'' :=
  ⟨h'.inputs.trans h.inputs, h'.shapes.trans h.shapes, h'.layers.trans h.layers⟩

theorem Kept.length_layers {f f' : Flow} (h : Kept f f') :
    f'.layers.length = f.layers.length := by
  have hlength := congrArg List.length h.layers
  rwa [List.length_map, List.length_map] at hlength

/-- Shapes that fit a flow fit what a build leaves of it. -/
theorem Kept.fits {f f' : Flow} (h : Kept f f') (hfits : f.Fits f.shapes) :
    f'.Fits f'.shapes := by
  rw [h.shapes]
  exact hfits.of_bare h.inputs h.layers

variable {β : Type} [Backend β]

theorem bare_appendLayers (shapes : List Shape) (current : Handle) (layers : List Layer) (b : β) :
    (((appendLayers shapes current).run (layers, b)).state.1).map Layer.bare =
      layers.map Layer.bare := by
  induction shapes generalizing current layers b with
  | nil => rfl
  | cons shape shapes ih =>
    cases layers with
    | nil => rfl
    | cons l rest =>
      obtain ⟨store, hstore⟩ := Layer.appendForward_keeps shape current (l, b)
      obtain ⟨rest', heq, hrest⟩ := layers_appendLayers_cons shape shapes current l rest b
      rw [heq, List.map_cons, hstore, Layer.bare_withStore, List.map_cons]
      rcases hrest with rfl | ⟨node, u, rfl⟩
      · rfl
      · rw [ih]

/-- A forward build changes the stage and the stores of the layers, and nothing else. -/
theorem kept_buildForward (f : Flow) (raw : List Handle) (outputs : List (Option Handle))
    (alignment : Nat) :
    Preserves (fun s : Flow × β => Kept f s.1) (buildForward raw outputs alignment) := by
  refine preserves_get_bind fun s hs => ?_
  refine preserves_bind (P := fun s : Flow × β => Kept f s.1) (preserves_ofExcept _)
    (fun _ => ?_) s hs
  refine preserves_bind (preserves_ofExcept _) fun sources => ?_
  refine preserves_bind ?_ fun start => ?_
  -- The fusion touches the backend only.
  · intro s hs
    exact hs
  refine preserves_bind ?_ fun nodes => ?_
  -- The layers fill their stores.
  · intro s hs
    exact hs.trans ⟨rfl, rfl, bare_appendLayers _ _ s.1.layers s.2⟩
  refine preserves_bind (preserves_say _ _) fun _ => ?_
  refine preserves_bind ?_ fun _ => preserves_pure _
  exact preserves_modify fun s hs => hs.trans ⟨rfl, rfl, rfl⟩

/-- A forward build that fails leaves the stage as it was. -/
theorem state_of_fails_buildForward {s t : Flow × β} {raw : List Handle}
    {outputs : List (Option Handle)} {alignment : Nat} {e : Failure}
    (h : (buildForward raw outputs alignment).Fails s e t) : t.1.state = s.1.state := by
  simp only [buildForward, fails_bind, yields_get, yields_ofExcept, fails_get, fails_ofExcept,
    fails_say, fails_modify, fails_pure, and_false, exists_false, or_false, false_or] at h
  obtain ⟨_, _, ⟨rfl, rfl⟩, ⟨-, rfl⟩ | ⟨_, _, ⟨-, rfl⟩, h⟩⟩ := h
  · rfl
  obtain ⟨-, rfl⟩ | ⟨sources, _, ⟨-, rfl⟩, h⟩ := h
  · rfl
  -- Past the checks only the backend and the layers have changed.
  obtain hfusion | ⟨start, _, hfusion, hlayers⟩ := h
  · obtain ⟨u, -, rfl⟩ := fails_zoom.mp hfusion
    rfl
  · obtain ⟨u, -, rfl⟩ := yields_zoom.mp hfusion
    obtain ⟨v, -, rfl⟩ := fails_zoom.mp hlayers
    rfl

/-- A backward build changes nothing but the stage. -/
theorem buildBackward_keeps (f : Flow) (b : β) (outputGradient : Handle) :
    ((buildBackward outputGradient).run (f, b)).state.1 = f ∨
      ∃ forward gradients, f.state = .forwardBuilt forward ∧
        ((buildBackward outputGradient).run (f, b)).state.1 =
          { f with state := .backwardBuilt forward gradients } := by
  rcases yields_or_fails (buildBackward outputGradient) (f, b) with ⟨gradients, h⟩ | ⟨e, h⟩
  · obtain ⟨⟨f', o⟩, hobserved, heq, -⟩ :=
      (related_buildBackward Observed.alike outputGradient).yields_left
        (s := (f, ⟨b, []⟩)) ⟨rfl, rfl⟩ h
    obtain ⟨forward, calls, hforward, -, hf', -⟩ := yields_buildBackward hobserved
    exact .inr ⟨forward, gradients, hforward, heq.symm.trans hf'⟩
  · exact .inl (buildBackward_error h.1)

/-- No step changes the sources; that is left to the graph. -/
theorem Step.inputs_eq {f f' : Flow} (h : Step f f') : f'.inputs = f.inputs := by
  cases h with
  | withLabel _ label => rfl
  | reset => rfl
  | pushLayer _ l => rfl
  | insertLayer hinsert => exact (insertLayer_label hinsert).2.1
  | removeLayer hremove =>
    obtain ⟨layers, rfl⟩ := exists_withLayers_of_removeLayer hremove
    rfl
  | moveLayer hmove =>
    obtain ⟨layers, rfl⟩ := exists_withLayers_of_moveLayer hmove
    rfl
  | modifyLayer _ index change => rfl
  | inferred hfits => rfl
  | notInferred => rfl
  | buildForward _ b raw outputs alignment =>
    exact (kept_buildForward f raw outputs alignment (f, b) (.refl f)).inputs
  | buildBackward _ b outputGradient =>
    rcases buildBackward_keeps f b outputGradient with heq | ⟨forward, gradients, -, heq⟩
    · rw [heq]
    · rw [heq]

/-- A flow after some steps is reachable and has the same sources. -/
theorem Reachable.steps {f f' : Flow} (h : f.Reachable)
    (hsteps : Relation.ReflTransGen Step f f') : f'.Reachable ∧ f'.inputs = f.inputs := by
  induction hsteps with
  | refl => exact ⟨h, rfl⟩
  | tail _ hstep ih => exact ⟨ih.1.step hstep, hstep.inputs_eq.trans ih.2⟩

/-! ## What every reachable flow keeps -/

/-- The nodes of a forward build belong to the sources and layers of the flow: there is a node
for each, and a fusion exactly if there are several sources. -/
structure Built (f : Flow) (forward : ForwardNodes) : Prop where
  length_inputs : forward.inputs.length = f.inputs.length
  length_layers : forward.layers.length = f.layers.length
  fusion : (forward.fusion = none ∧ f.inputs.length = 1) ∨
    ∃ nodes, forward.fusion = some nodes ∧ 2 ≤ f.inputs.length ∧
      nodes.sourceCount = f.inputs.length

/-- What a flow knows of itself belongs to the layers and sources it has now. -/
structure Coherent (f : Flow) : Prop where
  fits : f.state ≠ .unbuilt → f.Fits f.shapes
  built : ∀ forward, f.state.forward? = some forward → f.Built forward
  gradients : ∀ gradients, f.state.inputGradients? = some gradients →
    gradients.length = f.inputs.length

theorem coherent_of_unbuilt {f : Flow} (h : f.state = .unbuilt) : f.Coherent := by
  refine ⟨fun hne => absurd h hne, fun forward hforward => ?_, fun gradients hgradients => ?_⟩
  · rw [h] at hforward
    cases hforward
  · rw [h] at hgradients
    cases hgradients

theorem built_of_calls {f : Flow} {raw : List Handle} {outputs : List (Option Handle)}
    {alignment : Nat} {forward : ForwardNodes} {calls : List Call}
    (h : BuildForwardCalls f raw outputs alignment forward calls) : f.Built forward := by
  obtain ⟨hsources, hfusion, hlayers⟩ := h
  have hlength := Traversal.length_of_mapM_eq_ok hsources
  -- The fusion knows how many handles it was given, and there is one for each source.
  refine ⟨hlength, hlayers.length_nodes, ?_⟩
  cases hfusion with
  | single source => exact .inl ⟨rfl, hlength.symm⟩
  | several htwo hplan hkernel hcount =>
    exact .inr ⟨_, rfl, hlength ▸ htwo, hcount.trans hlength⟩

/-- Nodes that belong to a flow belong to what a build leaves of it. -/
theorem Built.of_kept {f f' : Flow} {forward : ForwardNodes} (h : f.Built forward)
    (hkept : Kept f f') : f'.Built forward := by
  refine ⟨?_, ?_, ?_⟩
  · rw [hkept.inputs, h.length_inputs]
  · rw [hkept.length_layers, h.length_layers]
  · rw [hkept.inputs]
    exact h.fusion

/-- A backward build has a gradient for each source. -/
theorem Built.length_gradients {f : Flow} {forward : ForwardNodes} (h : f.Built forward)
    {start : Handle} {gradients : List Handle} {calls : List Call}
    (hcalls : BuildBackwardCalls f forward start gradients calls) :
    gradients.length = f.inputs.length := by
  cases hcalls with
  -- Without a fusion there is one source and one gradient; with one the counts were checked.
  | single hnone hlayers =>
    rcases h.fusion with ⟨-, hone⟩ | ⟨nodes, hsome, -, -⟩
    · rw [hone]
      rfl
    · rw [hnone] at hsome
      cases hsome
  | several middle hsome hlayers hcount =>
    rcases h.fusion with ⟨hnone, -⟩ | ⟨nodes, hnodes, -, hsources⟩
    · rw [hnone] at hsome
      cases hsome
    · rw [hnodes] at hsome
      cases hsome
      exact hcount.trans hsources

/-- A flow that a build left with the same stage. -/
theorem Coherent.of_kept {f f' : Flow} (h : f.Coherent) (hkept : Kept f f')
    (hstate : f'.state = f.state) : f'.Coherent := by
  refine ⟨fun hne => ?_, fun forward hforward => ?_, fun gradients hgradients => ?_⟩
  · rw [hstate] at hne
    exact hkept.fits (h.fits hne)
  · rw [hstate] at hforward
    exact (h.built forward hforward).of_kept hkept
  · rw [hstate] at hgradients
    rw [hkept.inputs]
    exact h.gradients gradients hgradients

theorem Coherent.buildForward {f : Flow} (h : f.Coherent) (b : β) (raw : List Handle)
    (outputs : List (Option Handle)) (alignment : Nat) :
    ((Flow.buildForward raw outputs alignment).run (f, b)).state.1.Coherent := by
  have hkept : Kept f ((Flow.buildForward raw outputs alignment).run (f, b)).state.1 :=
    kept_buildForward f raw outputs alignment (f, b) (.refl f)
  rcases yields_or_fails (Flow.buildForward raw outputs alignment) (f, b) with
    ⟨output, hyields⟩ | ⟨e, hfails⟩
  -- Under observation the build is the same, and its requests tell what it leaves.
  · obtain ⟨⟨f', o⟩, hobserved, heq, -⟩ :=
      (related_buildForward Observed.alike raw outputs alignment).yields_left
        (s := (f, ⟨b, []⟩)) ⟨rfl, rfl⟩ hyields
    dsimp only at heq
    rw [← heq] at hkept ⊢
    have hstate := (checkForward_of_yields_buildForward hobserved).1
    have hfits : f.Fits f.shapes := h.fits (by rw [hstate]; simp)
    obtain ⟨-, forward, calls, hcalls, hf', -, -⟩ := yields_buildForward hfits hobserved
    have hbuilt : f'.Built forward := (built_of_calls hcalls).of_kept hkept
    have hf'state : f'.state = .forwardBuilt forward := by rw [hf']
    refine ⟨fun _ => hkept.fits hfits, fun found hfound => ?_, fun gradients hgradients => ?_⟩
    · rw [hf'state] at hfound
      cases hfound
      exact hbuilt
    · rw [hf'state] at hgradients
      cases hgradients
  -- A build that fails leaves the state as it was.
  · exact h.of_kept hkept (state_of_fails_buildForward hfails)

theorem Coherent.buildBackward {f : Flow} (h : f.Coherent) (b : β) (outputGradient : Handle) :
    ((Flow.buildBackward outputGradient).run (f, b)).state.1.Coherent := by
  rcases yields_or_fails (Flow.buildBackward outputGradient) (f, b) with
    ⟨gradients, hyields⟩ | ⟨e, hfails⟩
  -- Only the state changes; the gradients are as many as the sources.
  · obtain ⟨⟨f', o⟩, hobserved, heq, -⟩ :=
      (related_buildBackward Observed.alike outputGradient).yields_left
        (s := (f, ⟨b, []⟩)) ⟨rfl, rfl⟩ hyields
    dsimp only at heq
    rw [← heq]
    obtain ⟨forward, calls, hforward, hcalls, rfl, -⟩ := yields_buildBackward hobserved
    have hbuilt : f.Built forward := h.built forward (by rw [hforward]; rfl)
    have hfits : f.Fits f.shapes := h.fits (by rw [hforward]; simp)
    refine ⟨fun _ => hfits.of_bare rfl rfl, fun found hfound => ?_, fun found hfound => ?_⟩
    · cases hfound
      exact ⟨hbuilt.length_inputs, hbuilt.length_layers, hbuilt.fusion⟩
    · cases hfound
      exact hbuilt.length_gradients hcalls
  · rw [buildBackward_error hfails.1]
    exact h

theorem Coherent.step {f f' : Flow} (h : f.Coherent) (hstep : Step f f') : f'.Coherent := by
  cases hstep with
  | withLabel _ label =>
    exact h.of_kept ⟨rfl, rfl, rfl⟩ rfl
  | reset => exact coherent_of_unbuilt rfl
  | pushLayer _ l => exact coherent_of_unbuilt rfl
  | insertLayer hinsert => exact coherent_of_unbuilt (insertLayer_label hinsert).2.2
  | removeLayer hremove =>
    obtain ⟨layers, rfl⟩ := exists_withLayers_of_removeLayer hremove
    exact coherent_of_unbuilt rfl
  | moveLayer hmove =>
    obtain ⟨layers, rfl⟩ := exists_withLayers_of_moveLayer hmove
    exact coherent_of_unbuilt rfl
  | modifyLayer _ index change => exact coherent_of_unbuilt rfl
  -- Only an inference that succeeds gives shapes, and only builds keep them.
  | inferred hfits =>
    refine ⟨fun _ => hfits.of_bare rfl rfl, fun _ hforward => ?_, fun _ hgradients => ?_⟩
    · cases hforward
    · cases hgradients
  | notInferred => exact coherent_of_unbuilt rfl
  | buildForward _ b raw outputs alignment => exact h.buildForward b raw outputs alignment
  | buildBackward _ b outputGradient => exact h.buildBackward b outputGradient

/-- Whatever happened to a flow, what it knows of itself belongs to what it is now. -/
theorem Reachable.coherent {f : Flow} (h : f.Reachable) : f.Coherent := by
  induction h with
  | fresh label inputs layers => exact coherent_of_unbuilt rfl
  | withInputs hreach inputs ih => exact coherent_of_unbuilt rfl
  | step hreach hstep ih => exact ih.step hstep

end LayerFlow.Flow
