/-
LayerFlow.Proofs.Graph.Stores

What builds of a whole graph on the tape do to learned parameters.  A complete build that succeeds
uses the store of every normalization with learned parameters for the channels that its flow has
there, and changes nothing else of any layer.  Building again changes nothing at all, and over any
number of builds, also after other raw inputs, no store loses channels or values that still fit.

Main statement: `buildAll_refills`.
-/
import LayerFlow.Proofs.Flow.Stores
import LayerFlow.Proofs.Graph.History
import LayerFlow.Proofs.Graph.Independence

namespace LayerFlow

open Op

/-! ## Stages of a build -/

namespace Flow

/-- A flow that changed in its stage only. -/
def Restaged (f f' : Flow) : Prop := f' = { f with state := f'.state }

instance : IsPreorder Flow Restaged where
  refl _ := rfl
  trans _ _ _ h h' := by
    rw [Restaged] at h h' ⊢
    rw [h', h]

theorem restaged_buildBackward {β : Type} [Backend β] (f : Flow) (b : β)
    (outputGradient : Handle) :
    Restaged f ((buildBackward outputGradient).run (f, b)).state.1 := by
  rcases buildBackward_keeps f b outputGradient with heq | ⟨forward, gradients, -, heq⟩
  · rw [heq]
    exact Std.Refl.refl f
  · rw [Restaged, heq]

theorem Restaged.keepsLayers {f f' : Flow} (h : f.Restaged f') : f.KeepsLayers f' := by
  rw [h]
  exact keepsLayers_of_layers_eq rfl rfl rfl

theorem Restaged.staysFull {f f' : Flow} (h : f.Restaged f') : f.StaysFull f' := by
  rw [h]
  exact fun _ => ⟨rfl, rfl⟩

theorem keepsLayers_clear (f : Flow) : f.KeepsLayers f.clear := keepsLayers_of_layers_eq rfl rfl rfl

theorem keepsLayers_withShapes (f : Flow) (shapes : FlowShapes) :
    f.KeepsLayers (f.withShapes shapes) := keepsLayers_of_layers_eq rfl rfl rfl

/-- A flow after a complete build: the stores of its layers were used for the shapes it has, and
nothing else of the document changed. -/
structure RefilledTo (f f' : Flow) : Prop where
  label : f'.label = f.label
  inputs : f'.inputs = f.inputs
  layers : RefilledAll f'.shapes.layerInputs f.layers f'.layers

end Flow

namespace Graph

/-- The three stages of a complete build that succeeds. -/
theorem stages_of_yields_buildAll {β : Type} [Backend β] {g g' : Graph} {b b' : β}
    {raw : List Handle} {build : GraphBuild}
    (hrun : (buildAll raw).Yields (g, b) build (g', b')) :
    ∃ changed inferred built u, inferAll.Yields g changed inferred ∧
      (buildForwardAll raw).Yields (inferred, b) build.outputs (built, u) ∧
      Flowwise Flow.Restaged built g' := by
  obtain ⟨changed, _, hzoom, hbuilds⟩ := yields_bind.mp hrun
  obtain ⟨inferred, hinfer, rfl⟩ := yields_zoom.mp hzoom
  obtain ⟨outputs, ⟨built, u⟩, hforward, hrest⟩ := yields_bind.mp hbuilds
  obtain ⟨gradients, s, hbackward, hlast⟩ := yields_bind.mp hrest
  simp only [yields_bind, yields_get, yields_say, yields_pure] at hlast
  obtain ⟨_, _, ⟨rfl, rfl⟩, _, _, rfl, rfl, heq⟩ := hlast
  refine ⟨changed, inferred, built, u, hinfer, hforward, ?_⟩
  have hkept : FlowwiseBeside Flow.Restaged built
      ((buildBackwardAll : Op Failure (Graph × β) _).run (built, u)).state :=
    flowwise_buildBackwardAll Flow.restaged_buildBackward _ (.refl built)
  rw [hbackward.2, ← heq] at hkept
  exact hkept

section

variable {g g' : Graph} {t t' : Tape} {raw : List Handle} {build : GraphBuild}

/-- What a complete build leaves of a flow. -/
theorem Reachable.refilled_of_yields_buildAll (h : g.Reachable)
    (hrun : (buildAll raw).Yields (g, t) build (g', t')) {id : Nat} {f : Flow}
    (hf : g.flows[id]? = some f) : ∃ f', g'.flows[id]? = some f' ∧ f.RefilledTo f' ∧
      g.eval id = .ok f'.shapes := by
  obtain ⟨changed, inferred, built, u, hinfer, hforward, hbackward⟩ :=
    stages_of_yields_buildAll hrun
  -- The flow is inferred, built forward once, and then built backward.
  obtain ⟨shapes, heval, hinferred⟩ := (h.wellFormed.settled_of_inferAll hinfer).flow hf
  have hreach : inferred.Reachable := hinfer.2 ▸ h.step (.inferAll g)
  obtain ⟨found, v, w, output, f₁, hbuild, hf₁⟩ :=
    hreach.wellFormed.built_of_yields hforward hinferred
  have hcoherent := (hreach.wellFormed.flows _ (List.mem_of_getElem? hinferred)).coherent
  obtain ⟨hlayers, hbuilt⟩ :=
    Flow.yields_buildForward_refills (hcoherent.fits (by simp [Flow.withShapes])) hbuild
  obtain ⟨f', hf', hrestaged⟩ := hbackward.flows hf₁
  have hshapes : f'.shapes = shapes := by
    rw [hrestaged, hbuilt]
    rfl
  refine ⟨f', hf', ⟨?_, ?_, ?_⟩, hshapes ▸ heval⟩
  · rw [hrestaged, hbuilt]
    rfl
  · rw [hrestaged, hbuilt]
    rfl
  · rw [hshapes, hrestaged]
    exact hlayers

theorem keepsLayers_backwards : Backwards Flow.KeepsLayers Tape :=
  fun f t outputGradient => (Flow.restaged_buildBackward f t outputGradient).keepsLayers

/-- A complete build on the tape leaves every flow with its stores, whether it succeeds or not. -/
theorem Inferable.keepsLayers_buildAll (h : g.Inferable) (t : Tape) (raw : List Handle) :
    Flowwise Flow.KeepsLayers g ((buildAll raw).run (g, t)).state.1 :=
  flowwise_buildAll h Flow.keepsLayers_clear Flow.keepsLayers_withShapes
    Flow.keepsLayers_buildForward keepsLayers_backwards t raw

theorem Reachable.flowwise_refilledTo (h : g.Reachable)
    (hrun : (buildAll raw).Yields (g, t) build (g', t')) : Flowwise Flow.RefilledTo g g' := by
  have hkept := h.wellFormed.inferable.keepsLayers_buildAll t raw
  rw [hrun.2] at hkept
  refine ⟨hkept.rawInputs, hkept.size, fun hf => ?_⟩
  obtain ⟨f', hf', hrefilled, -⟩ := h.refilled_of_yields_buildAll hrun hf
  exact ⟨f', hf', hrefilled⟩

/-- After a complete build the document gives all flows the shapes that they have, and their stores
were used for these. -/
theorem Reachable.eval_of_yields_buildAll (h : g.Reachable)
    (hrun : (buildAll raw).Yields (g, t) build (g', t')) {id : Nat} {f' : Flow}
    (hf' : g'.flows[id]? = some f') : f'.Full ∧ g'.eval id = .ok f'.shapes := by
  have hflows := h.flowwise_refilledTo hrun
  obtain ⟨f, hf, -⟩ := hflows.before hf'
  obtain ⟨found, hfound, hrefilled, heval⟩ := h.refilled_of_yields_buildAll hrun hf
  obtain rfl := Option.some.inj (hf'.symm.trans hfound)
  have hwritten : g.flows.map Flow.written = g'.flows.map Flow.written :=
    hflows.map_eq fun f f' hR => Flow.written_eq_iff.mpr
      ⟨hR.label.symm, hR.inputs.symm, hR.layers.bare.symm⟩
  exact ⟨⟨f.layers, hrefilled.layers⟩, eval_of_written hflows.rawInputs.symm hwritten id ▸ heval⟩

/-- After a complete build another inference succeeds. -/
theorem Reachable.settled_again (h : g.Reachable)
    (hrun : (buildAll raw).Yields (g, t) build (g', t')) :
    Settled g' (inferAll.run g').state := by
  have hreach : g'.Reachable := by
    have hstep := h.step (.buildAll g t raw)
    rwa [hrun.2] at hstep
  rcases hreach.wellFormed.inferAll_spec with ⟨_, found, hyields, hsettled⟩ | ⟨e, _, -, hfails⟩
  · rwa [hyields.2]
  · obtain ⟨id, hid, herror⟩ := hreach.wellFormed.exists_error hfails
    obtain ⟨f', hf'⟩ := getElem?_of_lt_size hid
    rw [(h.eval_of_yields_buildAll hrun hf').2] at herror
    cases herror

/-- Another complete build, on any tape and however it ends, leaves all layers. -/
theorem Reachable.layers_buildAll_again (h : g.Reachable)
    (hrun : (buildAll raw).Yields (g, t) build (g', t')) (again : Tape) (inputs : List Handle) :
    ((buildAll inputs).run (g', again)).state.1.flows.map Flow.layers =
      g'.flows.map Flow.layers := by
  have hsettled := h.settled_again hrun
  have hlater : Flowwise Flow.StaysFull (inferAll.run g').state
      ((buildAll inputs).run (g', again)).state.1 :=
    flowwise_inferred_buildAll Flow.staysFull_buildForward
      (fun f t outputGradient => (Flow.restaged_buildBackward f t outputGradient).staysFull)
      g' again inputs
  have hsame : Flowwise (fun f f' => f.layers = f'.layers) g'
      ((buildAll inputs).run (g', again)).state.1 := by
    refine ⟨hlater.rawInputs.trans hsettled.1.rawInputs,
      hlater.size.trans hsettled.1.length, fun {id f'} hf' => ?_⟩
    obtain ⟨hfull, heval⟩ := h.eval_of_yields_buildAll hrun hf'
    -- The inference finds the shapes that the flow has.
    obtain ⟨shapes, heval', hinferred⟩ := hsettled.flow hf'
    obtain rfl := Except.ok.inj (heval.symm.trans heval')
    obtain ⟨f'', hf'', hstays⟩ := hlater.flows hinferred
    exact ⟨f'', hf'', (hstays (hfull.congr ⟨rfl, rfl⟩)).1.symm⟩
  exact (hsame.map_eq fun _ _ hlayers => hlayers).symm

end

/-! ## Builds and raw inputs -/

/-- Whether a use infers or builds the whole graph or one flow, on the tape if it builds, or changes
the raw inputs. -/
inductive Use.Rebuilds : Use → Prop
  | inferAll : Rebuilds .inferAll
  | buildForwardAll (t : Tape) (raw : List Handle) : Rebuilds (.buildForwardAll t raw)
  | buildBackwardAll (t : Tape) : Rebuilds (.buildBackwardAll t)
  | buildAll (t : Tape) (raw : List Handle) : Rebuilds (.buildAll t raw)
  | inferFlow (id : Nat) : Rebuilds (.inferFlow id)
  | buildForward (id : Nat) (t : Tape) (raw : List Handle) (outputs : List (Option Handle))
      (alignment : Nat) : Rebuilds (.work id (.buildForward t raw outputs alignment) trivial)
  | buildBackward (id : Nat) (t : Tape) (outputGradient : Handle) :
      Rebuilds (.work id (.buildBackward t outputGradient) trivial)
  | addRawInput (shape : Shape) : Rebuilds (.edit (.addRawInput shape) trivial)
  | setRawInput (slot : Nat) (shape : Shape) : Rebuilds (.edit (.setRawInput slot shape) trivial)

theorem forall₂_keepsLayers_reset (flows : List Flow) :
    List.Forall₂ Flow.KeepsLayers flows (flows.map Flow.reset) := by
  rw [List.forall₂_map_right_iff]
  exact List.forall₂_same.mpr fun f _ => Flow.keepsLayers_of_layers_eq rfl rfl rfl

/-- An edit that does not change the list of flows keeps their layers. -/
theorem keepsLayers_edit {e : Edit} (he : e.Reachable) (g : Graph)
    (hchange : e.change g.flows = g.flows) :
    List.Forall₂ Flow.KeepsLayers g.flows ((Use.edit e he).run g).flows := by
  rcases Use.edit_cases e he g with ⟨-, hsame⟩ | ⟨hyields, -⟩
  · rw [hsame]
    exact List.forall₂_refl _
  · obtain ⟨rawInputs, -, -, heq⟩ := Edit.resetAll_of_yields hyields
    rw [heq, hchange]
    exact forall₂_keepsLayers_reset g.flows

theorem keepsLayers_work {u : Flow.Use} (hplain : u.Plain)
    (hu : ∀ f, Flow.KeepsLayers f (u.run f)) (g : Graph) (id : Nat) :
    List.Forall₂ Flow.KeepsLayers g.flows ((Use.work id u hplain).run g).flows := by
  rw [run_work]
  exact (flowwise_modify g id hu).forall₂

theorem Use.Rebuilds.keepsLayers {u : Use} (hu : u.Rebuilds) {g : Graph} (h : g.Reachable) :
    List.Forall₂ Flow.KeepsLayers g.flows (u.run g).flows := by
  have hrefl : Flowwise Flow.KeepsLayers g g := .refl g
  cases hu with
  | inferAll =>
    exact (flowwise_inferAll h.wellFormed.inferable Flow.keepsLayers_clear
      Flow.keepsLayers_withShapes).forall₂
  | buildForwardAll t raw =>
    exact Flowwise.forall₂
      (flowwise_buildForwardAll Flow.keepsLayers_buildForward raw (g, t) hrefl)
  | buildBackwardAll t =>
    exact Flowwise.forall₂ (flowwise_buildBackwardAll keepsLayers_backwards (g, t) hrefl)
  | buildAll t raw => exact (h.wellFormed.inferable.keepsLayers_buildAll t raw).forall₂
  | inferFlow id =>
    rw [run_inferFlow]
    refine Flowwise.forall₂ (flowwise_modify g id fun f => ?_)
    cases hshapes : f.evaluate g.resolve with
    | ok shapes =>
      rw [(Flow.infer_ok hshapes).2]
      exact f.keepsLayers_withShapes shapes
    | error e =>
      rw [(Flow.infer_error hshapes).2]
      exact f.keepsLayers_clear
  | buildForward id t raw outputs alignment =>
    exact keepsLayers_work (u := .buildForward t raw outputs alignment) trivial
      (fun f => f.keepsLayers_buildForward t raw outputs alignment) g id
  | buildBackward id t outputGradient =>
    exact keepsLayers_work (u := .buildBackward t outputGradient) trivial
      (fun f => keepsLayers_backwards f t outputGradient) g id
  | addRawInput shape => exact keepsLayers_edit _ g rfl
  | setRawInput slot shape => exact keepsLayers_edit _ g rfl

/-- However often a graph is built, also over other raw inputs, its stores keep what fits. -/
theorem Reachable.keepsLayers_after {g : Graph} (h : g.Reachable) {uses : List Use}
    (hrebuilds : ∀ u ∈ uses, u.Rebuilds) :
    List.Forall₂ Flow.KeepsLayers g.flows (g.after uses).flows := by
  induction uses generalizing g with
  | nil => exact List.forall₂_refl _
  | cons u rest ih =>
    rw [List.forall_mem_cons] at hrebuilds
    exact Traversal.forall₂_trans (hrebuilds.1.keepsLayers h)
      (ih (u.reachable h) hrebuilds.2)

/-- Complete builds never lose parameters that still fit.  One that succeeds uses the store of each
normalization that learns parameters for the channels of its input: the number of channels grows
to them if it is smaller, buffers under the names of the kind stay if they are long enough for
that and become zeros if they are not, and nothing else of any layer changes.  A build after that
changes no layer, and over any number of builds and changes of raw inputs, of the whole graph or
of single flows, numbers of channels never shrink and buffers that are still long enough stay, also
where some of these fail. -/
theorem buildAll_refills {g : Graph} (h : g.Reachable) :
    (∀ (t t' : Tape) (raw : List Handle) (build : GraphBuild) (g' : Graph),
      (buildAll raw).Yields (g, t) build (g', t') →
      Flowwise Flow.RefilledTo g g' ∧
      ∀ (again : Tape) (inputs : List Handle),
        ((buildAll inputs).run (g', again)).state.1.flows.map Flow.layers =
          g'.flows.map Flow.layers) ∧
    ∀ uses : List Use, (∀ u ∈ uses, u.Rebuilds) →
      List.Forall₂ Flow.KeepsLayers g.flows (g.after uses).flows :=
  ⟨fun _ _ _ _ _ hrun => ⟨h.flowwise_refilledTo hrun, h.layers_buildAll_again hrun⟩,
    fun _ hrebuilds => h.keepsLayers_after hrebuilds⟩

/-! ## A flow with trained parameters -/

/-- The parameters of a layer that was trained for four channels. -/
def trainedStore : ParamStore := ((ParamStore.empty "norm").growTo 4).fill "gamma" .one

/-- A document that uses the layer for three channels. -/
def trained : Graph where
  flows := [.fresh "norm" [.raw 0]
    [.normalization { Normalization.ofKind .batch with store := trainedStore }]]
  rawInputs := [⟨4, 4, 3, 1⟩]
  config := .default
  analysis := some ⟨[0], [0], [0], [0]⟩

theorem reachable_trained : trained.Reachable := by
  have hsound : Sound trained.rawInputs.length trained.flows := sound_of_earlier (by decide)
  refine hsound.reachable_verified fun f hf => ?_
  obtain rfl := List.mem_singleton.mp hf
  exact .fresh _ _ _

/-- The document after a complete build. -/
def trainedBuilt : Graph := ((buildAll [⟨0⟩]).run (trained, diamondTape)).state.1

/-- A raw input of six channels comes in, and the document is built again. -/
def widened : List Use :=
  [.buildAll diamondTape [⟨0⟩], .edit (.setRawInput 0 ⟨4, 4, 6, 1⟩) trivial,
    .buildAll diamondTape [⟨0⟩]]

/-- What the layers of a document have learned to multiply by. -/
def gammas (g : Graph) : List (List (Option (List Binary32))) :=
  g.flows.map fun f => f.layers.map fun l => l.store?.bind fun store => store.buffer? "gamma"

/-- The trained values are long enough for three channels, so they stay. -/
theorem buildAll_refills_trained :
    Flowwise Flow.RefilledTo trained trainedBuilt ∧
    ((buildAll [⟨0⟩]).run (trainedBuilt, diamondTape)).state.1.flows.map Flow.layers =
      trainedBuilt.flows.map Flow.layers ∧
    List.Forall₂ Flow.KeepsLayers trained.flows (trained.after widened).flows ∧
    gammas trainedBuilt = [[some (List.replicate 4 .one)]] := by
  obtain ⟨hbuild, hmore⟩ := buildAll_refills reachable_trained
  have hrun : (buildAll [⟨0⟩]).Yields (trained, diamondTape) ⟨[⟨1⟩], [some ⟨3⟩]⟩
      ((buildAll [⟨0⟩]).run (trained, diamondTape)).state := ⟨by decide +kernel, rfl⟩
  obtain ⟨hrefilled, hagain⟩ := hbuild _ _ _ _ _ hrun
  refine ⟨hrefilled, hagain diamondTape [⟨0⟩], hmore widened ?_, by decide +kernel⟩
  simp only [widened, List.forall_mem_cons, List.not_mem_nil, false_implies, implies_true, and_true]
  exact ⟨.buildAll _ _, .setRawInput _ _, .buildAll _ _⟩

end Graph

end LayerFlow
