/-
LayerFlow.Proofs.Flow.Backpropagation

The backward build of a flow on any backend, also one that refuses requests or hands out too few or
too many gradients.  The layers, input shapes and nodes that it goes through together are equally
many, and every layer still has the kernel that its node was made for; so nothing but the backend
can stop a backward build, and one that is stopped changes nothing of the flow.

Main statement: `buildBackward_atomic`, the two ways in which a backward build ends.
-/
import LayerFlow.Backend.Curtailed
import LayerFlow.Proofs.Flow.History
import LayerFlow.Proofs.Flow.Mirror

namespace LayerFlow

open Op

/-! ## What the backend refuses -/

section

variable {β : Type} [Backend β]

/-- The gradient of a layer that has a kernel can fail in the backend only. -/
theorem Layer.fails_appendGradient {l : Layer} {forward : Handle} {shape : Shape}
    {outputGradient : Handle} {kernel : Kernel} {b b' : β} {e : Failure}
    (hkernel : l.kernel shape = .ok kernel)
    (h : (l.appendGradient forward shape outputGradient).Fails b e b') :
    ∃ fault, e = .backend fault := by
  simp only [appendGradient, fails_bind, fails_note, yields_note, fails_ofExcept, hkernel,
    reduceCtorEq, fails_say, fails_pure, fails_mapError, false_and, and_false, exists_false,
    or_false, false_or] at h
  obtain ⟨_, _, -, _, _, -, fault, -, rfl⟩ := h
  exact ⟨fault, rfl⟩

/-- The gradients of a fusion can fail in the backend only, or because it does not answer with as
many as there are sources. -/
theorem FusionNodes.fails_appendGradients {nodes : FusionNodes} {outputGradient : Handle}
    {b b' : β} {e : Failure} (h : (nodes.appendGradients outputGradient).Fails b e b') :
    ∃ fault, e = .backend fault := by
  simp only [appendGradients, fails_bind, fails_mapError] at h
  obtain ⟨fault, -, rfl⟩ | ⟨middle, u, -, ⟨fault, -, rfl⟩ | ⟨gradients, v, -, hcount⟩⟩ := h
  · exact ⟨fault, rfl⟩
  · exact ⟨fault, rfl⟩
  split at hcount
  · exact ⟨_, (fails_fail.mp hcount).1⟩
  · exact absurd hcount fails_pure.mp

end

namespace Flow

/-- A layer that has a kernel on its input. -/
def BuiltLayer.HasKernel (built : BuiltLayer) : Prop :=
  ∃ kernel, built.layer.kernel built.input = .ok kernel

/-- Layers that were built have kernels, whatever has become of their stores. -/
theorem ForwardCalls.hasKernel {layers layers' : List Layer} {shapes : List Shape}
    {start : Handle} {nodes : List Handle} {calls : List Call}
    (h : ForwardCalls layers shapes start nodes calls)
    (hbare : layers'.map Layer.bare = layers.map Layer.bare) :
    ∀ built ∈ builts layers' shapes nodes, built.HasKernel := by
  induction h generalizing layers' with
  | nil start =>
    rw [List.map_nil, List.map_eq_nil_iff] at hbare
    subst hbare
    simp [builts]
  | @cons l layers shape shapes kernel start node nodes calls hkernel hrest ih =>
    cases layers' with
    | nil => simp at hbare
    | cons l' rest' =>
      obtain ⟨hhead, htail⟩ := List.cons_eq_cons.mp hbare
      have hfirst : BuiltLayer.HasKernel ⟨l', shape, node⟩ :=
        ⟨kernel, (Layer.kernel_eq_of_bare hhead shape).trans hkernel⟩
      intro built hmem
      rcases List.mem_cons.mp hmem with rfl | hmem
      · exact hfirst
      · exact ih htail built hmem

theorem BuildForwardCalls.hasKernel {f f' : Flow} {raw : List Handle}
    {outputs : List (Option Handle)} {alignment : Nat} {forward : ForwardNodes}
    {calls : List Call} (h : BuildForwardCalls f raw outputs alignment forward calls)
    (hkept : Kept f f') : ∀ built ∈ f'.builtLayers forward, built.HasKernel := by
  cases h with
  | intro hsources hfusion hlayers =>
    rw [builtLayers, hkept.shapes]
    exact hlayers.hasKernel hkept.layers

section

variable {β : Type} [Backend β]

theorem fails_appendLayerGradients {built : List BuiltLayer} (hkernels : ∀ l ∈ built, l.HasKernel)
    {start : Handle} {b b' : β} {e : Failure}
    (h : (appendLayerGradients built start).Fails b e b') : ∃ fault, e = .backend fault := by
  induction built generalizing start b with
  | nil => exact absurd h fails_pure.mp
  | cons first rest ih =>
    rw [List.forall_mem_cons] at hkernels
    obtain ⟨⟨kernel, hkernel⟩, hrest⟩ := hkernels
    rcases fails_bind.mp h with hfirst | ⟨next, u, -, hothers⟩
    · exact Layer.fails_appendGradient hkernel hfirst
    · exact ih hrest hothers

theorem fails_appendGradients {f : Flow} {forward : ForwardNodes}
    (hkernels : ∀ built ∈ f.builtLayers forward, built.HasKernel) {start : Handle} {b b' : β}
    {e : Failure} (h : (f.appendGradients forward start).Fails b e b') :
    ∃ fault, e = .backend fault := by
  rcases fails_bind.mp h with hlayers | ⟨last, u, -, hrest⟩
  · refine fails_appendLayerGradients (fun built hbuilt => ?_) hlayers
    exact hkernels built (List.mem_reverse.mp hbuilt)
  cases hfusion : forward.fusion with
  | none =>
    rw [hfusion] at hrest
    exact absurd hrest fails_pure.mp
  | some nodes =>
    rw [hfusion] at hrest
    exact FusionNodes.fails_appendGradients hrest

/-- A backward build fails in the wrong stage, or in the backend. -/
theorem fails_buildBackward {f : Flow}
    (hkernels : ∀ forward, f.state = .forwardBuilt forward →
      ∀ built ∈ f.builtLayers forward, built.HasKernel)
    {start : Handle} {b : β} {t : Flow × β} {e : Failure}
    (h : (buildBackward start).Fails (f, b) e t) :
    (e = .wrongStage .forwardBuilt f.state.stage ∧ f.state.stage ≠ .forwardBuilt) ∨
      ∃ fault, e = .backend fault := by
  replace h := fails_get_bind.mp h
  dsimp only at h
  split at h
  · next forward hforward =>
    rcases fails_bind.mp h with hgradients | ⟨_, _, -, hrest⟩
    · obtain ⟨u, hgradients, -⟩ := fails_zoom.mp hgradients
      exact .inr (fails_appendGradients (hkernels forward hforward) hgradients)
    · simp only [fails_bind, fails_modify, fails_pure, and_false, exists_false, or_false] at hrest
  · next hother =>
    refine .inl ⟨(fails_fail.mp h).1, fun hstage => ?_⟩
    cases hstate : f.state with
    | forwardBuilt forward => exact hother forward hstate
    | _ =>
      rw [hstate] at hstage
      cases hstage

end

/-! ## Backward builds -/

/-- The layers, input shapes and nodes of a flow that was built are equally many, so none of them
is left out. -/
theorem Built.builtLayers {f : Flow} {forward : ForwardNodes} (h : f.Built forward)
    (hfits : f.Fits f.shapes) :
    (f.builtLayers forward).map BuiltLayer.layer = f.layers ∧
      (f.builtLayers forward).map BuiltLayer.input = f.shapes.layerInputs ∧
      (f.builtLayers forward).map BuiltLayer.node = forward.layers := by
  have hshapes := hfits.length_layerInputs
  have hnodes := h.length_layers
  have hpairs : (List.zip f.layers f.shapes.layerInputs).length = f.layers.length := by
    rw [List.length_zip]
    omega
  -- Each of the three lists is read off the entries of the zip.
  have hentries : ((f.layers.zip f.shapes.layerInputs).zip forward.layers).map Prod.fst =
      f.layers.zip f.shapes.layerInputs := by
    rw [List.map_fst_zip]
    omega
  refine ⟨?_, ?_, map_node_builtLayers hfits hnodes⟩
  · rw [Flow.builtLayers, List.map_map]
    show List.map (Prod.fst ∘ Prod.fst) _ = _
    rw [← List.map_map, hentries, List.map_fst_zip]
    omega
  · rw [Flow.builtLayers, List.map_map]
    show List.map (Prod.snd ∘ Prod.fst) _ = _
    rw [← List.map_map, hentries, List.map_snd_zip]
    omega

/-- What a backward build asks for that starts from a gradient of the output: with each layer on
its input shape and its node, last to first, one gradient; then, exactly if there are several
sources, that of the contraction and that of the concatenation. -/
structure Differentiates (f : Flow) (forward : ForwardNodes) (entering : Handle)
    (gradients : List Handle) (calls : List Call) : Prop where
  length : gradients.length = f.inputs.length
  layers : (f.builtLayers forward).map BuiltLayer.layer = f.layers
  inputs : (f.builtLayers forward).map BuiltLayer.input = f.shapes.layerInputs
  nodes : (f.builtLayers forward).map BuiltLayer.node = forward.layers
  fusion : forward.fusion.isSome = true ↔ 2 ≤ f.inputs.length
  calls : BuildBackwardCalls f forward entering gradients calls

theorem Built.differentiates {f : Flow} {forward : ForwardNodes} (h : f.Built forward)
    (hfits : f.Fits f.shapes) {entering : Handle} {gradients : List Handle} {calls : List Call}
    (hcalls : BuildBackwardCalls f forward entering gradients calls) :
    f.Differentiates forward entering gradients calls := by
  obtain ⟨hlayers, hinputs, hnodes⟩ := h.builtLayers hfits
  refine ⟨h.length_gradients hcalls, hlayers, hinputs, hnodes, ?_, hcalls⟩
  rcases h.fusion with ⟨hnone, hone⟩ | ⟨nodes, hsome, htwo, -⟩
  · simp [hnone, hone]
  · simp [hsome, htwo]

/-- The nodes of a flow are those that its last forward build asked for, and nothing that they
depend on has changed since. -/
theorem exists_lastBuild_requests {start : Flow} (h : start.Begins) {uses : List Use}
    {forward : ForwardNodes} (hstate : (start.after uses).state.forward? = some forward) :
    ∃ before build later raw outputs alignment, uses = before ++ build :: later ∧
      LastBuild start before build later forward ∧
      Kept (start.after before) (start.after uses) ∧
      BuildForwardCalls (start.after before) raw outputs alignment forward
        (build.requests (start.after before)) := by
  have hstart : start.state.forward? = none := by rw [h.state_eq]; rfl
  obtain ⟨before, build, later, rfl, hlast⟩ := exists_lastBuild h.reachable hstart hstate
  obtain ⟨raw, outputs, alignment, built, hnodes, hcalls, -⟩ :=
    hlast.succeeds.spec (h.reachable.after before).coherent
  rw [hlast.nodes] at hnodes
  cases hnodes
  have hkept := hlast.kept later (List.prefix_refl later)
  have hafter : start.after (before ++ build :: later) =
      (build.run (start.after before)).after later := by
    rw [after_append]
    rfl
  rw [← hafter] at hkept
  exact ⟨before, build, later, raw, outputs, alignment, rfl, hlast, hkept, hcalls⟩

/-- A backward build ends in one of two ways, on any backend.  Either it fails, in the wrong stage
or because of the backend, and leaves the flow as it was; or it leaves nothing but its gradients,
one for each source, and has asked for the gradients of what the last forward build that succeeded
had asked for, request by request. -/
theorem buildBackward_atomic {start : Flow} (h : start.Begins) (uses : List Use) {β : Type}
    [Backend β] (b : β) (entering : Handle) :
    let f := start.after uses
    let out := (buildBackward entering).run (f, b)
    let calls := (Use.buildBackward b entering).requests f
    (∃ e, out.result = .error e ∧ out.state.1 = f ∧
      ((e = .wrongStage .forwardBuilt f.state.stage ∧ f.state.stage ≠ .forwardBuilt) ∨
        ∃ fault, e = .backend fault)) ∨
    ∃ forward gradients, f.state = .forwardBuilt forward ∧ out.result = .ok gradients ∧
      out.state.1 = { f with state := .backwardBuilt forward gradients } ∧
      f.Differentiates forward entering gradients calls ∧
      ∃ before build later, uses = before ++ build :: later ∧
        LastBuild start before build later forward ∧
        List.Forall₂ Call.Mirrors (build.requests (start.after before)).reverse calls := by
  intro f out calls
  have hcoherent : f.Coherent := (h.reachable.after uses).coherent
  rcases yields_or_fails (buildBackward entering) (f, b) with ⟨gradients, hyields⟩ | ⟨e, hfails⟩
  · -- Under observation the build is the same, and its requests tell what it leaves.
    obtain ⟨⟨f', o⟩, hobserved, heq, -⟩ :=
      (related_buildBackward Observed.alike entering).yields_left
        (s := (f, ⟨b, []⟩)) ⟨rfl, rfl⟩ hyields
    obtain ⟨forward, found, hstate, hfound, hf', happend⟩ := yields_buildBackward hobserved
    have hforward : f.state.forward? = some forward := by rw [hstate]; rfl
    have hfits : f.Fits f.shapes := hcoherent.fits (by rw [hstate]; simp)
    have hcalls : calls = found := by
      show ((buildBackward entering).run (f, (⟨b, []⟩ : Observed β))).state.2.calls = found
      rw [hobserved.2]
      exact happend
    rw [← hcalls] at hfound
    obtain ⟨before, build, later, _, _, _, huses, hlast, hkept, hmade⟩ :=
      exists_lastBuild_requests h hforward
    exact .inr ⟨forward, gradients, hstate, hyields.1, heq.symm.trans hf',
      (hcoherent.built forward hforward).differentiates hfits hfound, before, build, later, huses,
      hlast, mirrors_of_builds hmade hkept.layers hkept.shapes hfound⟩
  · -- The kernels that the forward build found are found again, so only the backend can fail.
    have hkernels : ∀ forward, f.state = .forwardBuilt forward →
        ∀ built ∈ f.builtLayers forward, built.HasKernel := by
      intro forward hstate
      have hforward : f.state.forward? = some forward := by rw [hstate]; rfl
      obtain ⟨_, _, _, _, _, _, -, -, hkept, hmade⟩ := exists_lastBuild_requests h hforward
      exact hmade.hasKernel hkept
    exact .inl ⟨e, hfails.1, buildBackward_error hfails.1, fails_buildBackward hkernels hfails⟩

/-- The flow of two sources once it is built forward, and the tape that it was built on. -/
def stackedBuilt : Flow := stacked.after (stackedUses.take 2)

def stackedRecorded : Tape :=
  ((buildForward [⟨0⟩, ⟨1⟩] [] 4).run (stacked.after (stackedUses.take 1), stackedTape)).state.2

/-- On the tape the two sources get a gradient each; a backend that hands out one gradient too few
leaves the flow as it was. -/
theorem buildBackward_atomic_stacked :
    (∃ forward gradients, stackedBuilt.state = .forwardBuilt forward ∧
      ((buildBackward ⟨4⟩).run (stackedBuilt, stackedRecorded)).result = .ok gradients ∧
      gradients.length = 2 ∧ stackedBuilt.Differentiates forward ⟨4⟩ gradients
        ((Use.buildBackward stackedRecorded ⟨4⟩).requests stackedBuilt)) ∧
    ∃ fault,
      ((buildBackward ⟨4⟩).run (stackedBuilt, (⟨stackedRecorded, 1⟩ : Curtailed Tape))).result =
        .error (.backend fault) ∧
      ((buildBackward ⟨4⟩).run (stackedBuilt, (⟨stackedRecorded, 1⟩ : Curtailed Tape))).state.1 =
        stackedBuilt := by
  have hbegins : Begins stacked := .fresh _ _ _
  have hcomplete := buildBackward_atomic hbegins (stackedUses.take 2) stackedRecorded ⟨4⟩
  have hcurtailed := buildBackward_atomic hbegins (stackedUses.take 2)
    (⟨stackedRecorded, 1⟩ : Curtailed Tape) ⟨4⟩
  constructor
  · rcases hcomplete with ⟨e, herror, -⟩ | ⟨forward, gradients, hstate, hresult, -, hcalls, -⟩
    · cases herror
    · exact ⟨forward, gradients, hstate, hresult, hcalls.length, hcalls⟩
  · rcases hcurtailed with ⟨e, herror, hleft, hwhy⟩ | ⟨forward, gradients, -, hresult, -⟩
    · rcases hwhy with ⟨-, hstage⟩ | ⟨fault, rfl⟩
      · exact absurd rfl hstage
      · exact ⟨fault, herror, hleft⟩
    · cases hresult

end Flow

end LayerFlow
