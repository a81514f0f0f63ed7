/-
LayerFlow.Proofs.Backend.Abstraction

Flows and graphs treat the backend as abstract: they only ask for nodes and pass handles back.
So two backends whose six requests answer alike on related states are told apart by no build,
and a relation that the requests keep is kept by every build.

The flows on the two sides need not be equal either.  Their layers may differ in whatever shapes
and kernels do not show, as long as the backends do not show it when they are asked for nodes.

Main statements: `Graph.across_buildInferred`, builds of graphs with related layers on two backends
of this kind answer alike and leave related graphs, and `Graph.related_buildAll`, complete builds
of equal graphs leave equal graphs.
-/
import LayerFlow.Graph.Build
import LayerFlow.Proofs.Flow.Shapes
import LayerFlow.Proofs.Graph.Structure
import LayerFlow.Proofs.Operation

namespace LayerFlow

open Op

variable {β γ ε δ α : Type}

/-! ## Related backends -/

/-- Related backends next to related values. -/
def Across (E : α → α → Prop) (R : β → γ → Prop) (s : α × β) (t : α × γ) : Prop :=
  E s.1 t.1 ∧ R s.2 t.2

/-- Related backends next to equal values. -/
def Beside (R : β → γ → Prop) (s : α × β) (t : α × γ) : Prop := s.1 = t.1 ∧ R s.2 t.2

section

variable {E : α → α → Prop} {R : β → γ → Prop}

theorem across_beside {x : Op ε β δ} {y : Op ε γ δ} (h : Related R x y) :
    Related (Across E R) (zoom Prod.snd (fun b s => (s.1, b)) x)
      (zoom Prod.snd (fun b s => (s.1, b)) y) :=
  related_zoom h (fun _ _ hst => hst.2) fun _ _ _ _ huv hst => ⟨hst.1, huv⟩

/-- A look at both states sees related values. -/
theorem across_look {f : α × β → Op ε (α × β) δ} {g : α × γ → Op ε (α × γ) δ}
    (h : ∀ a a' b c, E a a' → Related (Across E R) (f (a, b)) (g (a', c))) :
    Related (Across E R) (get >>= f) (get >>= g) :=
  related_get_bind fun s t hst => h s.1 t.1 s.2 t.2 hst.1 s t hst

/-- Where related values are equal, nothing but the backends tells the two sides apart. -/
theorem related_of_across {x : Op ε (α × β) δ} {y : Op ε (α × γ) δ} (hE : E = Eq)
    (h : Related (Across E R) x y) : Related (Beside R) x y := by
  subst hE
  exact h

end

/-! ## Related flows and graphs -/

section

variable {E : Layer → Layer → Prop}

/-- Flows that agree in everything but their layers, which are related one by one. -/
structure Flow.Like (E : Layer → Layer → Prop) (f f' : Flow) : Prop where
  label : f.label = f'.label
  inputs : f.inputs = f'.inputs
  layers : List.Forall₂ E f.layers f'.layers
  shapes : f.shapes = f'.shapes
  state : f.state = f'.state

theorem Flow.like_eq : Flow.Like Eq = Eq := by
  funext f f'
  refine propext ⟨fun h => ?_, ?_⟩
  · have hlayers := h.layers
    rw [List.forall₂_eq_eq_eq] at hlayers
    obtain ⟨label, inputs, layers, shapes, state⟩ := f
    obtain ⟨rfl, rfl, -, rfl, rfl⟩ := h
    obtain rfl := hlayers
    rfl
  · rintro rfl
    exact ⟨rfl, rfl, List.forall₂_refl f.layers, rfl, rfl⟩

namespace Graph

/-- Graphs that agree in everything but the layers of their flows. -/
structure Like (E : Layer → Layer → Prop) (g g' : Graph) : Prop where
  flows : List.Forall₂ (Flow.Like E) g.flows g'.flows
  rawInputs : g.rawInputs = g'.rawInputs
  config : g.config = g'.config
  analysis : g.analysis = g'.analysis

theorem like_eq : Graph.Like Eq = Eq := by
  funext g g'
  refine propext ⟨fun h => ?_, ?_⟩
  · have hflows := h.flows
    rw [Flow.like_eq, List.forall₂_eq_eq_eq] at hflows
    obtain ⟨flows, rawInputs, config, analysis⟩ := g
    obtain ⟨-, rfl, rfl, rfl⟩ := h
    obtain rfl := hflows
    rfl
  · rintro rfl
    refine ⟨?_, rfl, rfl, rfl⟩
    rw [Flow.like_eq]
    exact List.forall₂_refl g.flows

theorem Like.size {g g' : Graph} (h : Like E g g') : g.size = g'.size := h.flows.length_eq

theorem Like.inputs {g g' : Graph} (h : Like E g g') :
    g.flows.map Flow.inputs = g'.flows.map Flow.inputs := by
  rw [← List.forall₂_eq_eq_eq, List.forall₂_map_left_iff, List.forall₂_map_right_iff]
  exact h.flows.imp fun _ _ hf => hf.inputs

/-- Both graphs have a flow with an id, or none of them has. -/
theorem Like.flow {g g' : Graph} (h : Like E g g') (id : Nat) :
    (∃ f f', g.flow id = .ok f ∧ g'.flow id = .ok f' ∧ Flow.Like E f f') ∨
      ∃ e, g.flow id = .error e ∧ g'.flow id = .error e := by
  unfold Graph.flow
  cases hf : g.flows[id]? with
  | some f =>
    obtain ⟨f', hf', hlike⟩ := Traversal.exists_getElem?_of_forall₂ h.flows hf
    rw [hf']
    exact .inl ⟨f, f', rfl, rfl, hlike⟩
  | none =>
    rw [List.getElem?_eq_none (h.flows.length_eq ▸ List.getElem?_eq_none_iff.mp hf)]
    exact .inr ⟨_, rfl, rfl⟩

theorem Like.setFlow {g g' : Graph} (h : Like E g g') {f f' : Flow} (hf : Flow.Like E f f')
    (id : Nat) : Like E (g.setFlow id f) (g'.setFlow id f') := by
  have hset : ∀ {flows flows' : List Flow} (id : Nat), List.Forall₂ (Flow.Like E) flows flows' →
      List.Forall₂ (Flow.Like E) (flows.set id f) (flows'.set id f') := by
    intro flows flows' id hflows
    induction hflows generalizing id with
    | nil => exact .nil
    | cons hfirst hrest ih =>
      cases id with
      | zero => exact .cons hf hrest
      | succ id => exact .cons hfirst (ih id)
  exact ⟨hset id h.flows, h.rawInputs, h.config, h.analysis⟩

variable {R : β → γ → Prop}

/-- Work on one flow of a graph next to a backend. -/
theorem across_onFlow {x : Op Failure (Flow × β) δ} {y : Op Failure (Flow × γ) δ}
    (h : Related (Across (Flow.Like E) R) x y) (id : Nat) :
    Related (Across (Graph.Like E) R) (onFlow id x) (onFlow id y) := by
  refine across_look fun g g' _ _ hg => ?_
  refine related_ofExcept_bind (hg.flow id) fun f f' hf => ?_
  exact related_zoom h (fun _ _ hst => ⟨hf, hst.2⟩)
    fun _ _ _ _ huv hst => ⟨hst.1.setFlow huv.1 id, huv.2⟩

/-- Work on the graph alone. -/
theorem across_onGraph {x y : Op ε Graph δ} (h : Related (Graph.Like E) x y) :
    Related (Across (Graph.Like E) R) (onGraph x) (onGraph y) :=
  related_zoom h (fun _ _ hst => hst.1) fun _ _ _ _ huv hst => ⟨huv, hst.2⟩

theorem related_verify : Related (Graph.Like E) verify verify := by
  refine related_get_bind fun g g' hg => ?_
  have hcheck : checkStructure g.rawInputs.length g.flows =
      checkStructure g'.rawInputs.length g'.flows := by
    rw [hg.rawInputs, checkStructure_congr hg.inputs]
  rw [hcheck, references_eq_of_inputs hg.inputs.symm]
  refine related_bind (related_ofExcept _) (fun _ => ?_) g g' hg
  refine related_bind (related_say _ _ _ _) fun _ => ?_
  refine related_bind (related_set ?_) fun _ => related_pure _
  exact ⟨hg.flows, hg.rawInputs, hg.config, rfl⟩

theorem related_ensureVerified : Related (Graph.Like E) ensureVerified ensureVerified := by
  refine related_get_bind fun g g' hg => ?_
  rw [hg.analysis]
  cases g'.analysis with
  | some analysis => exact ⟨rfl, hg⟩
  | none => exact related_verify g g' hg

end Graph

end

variable [Backend β] [Backend γ]

/-- The six requests of two backends answer alike on related states and keep them related. -/
structure Backend.Alike (R : β → γ → Prop) : Prop where
  appendForward (kernel : Kernel) (padding : PaddingPolicy) (input : Handle) :
    Related (fun (s : β × Option ParamStore) (t : γ × Option ParamStore) =>
      R s.1 t.1 ∧ s.2 = t.2)
      (Backend.appendForward kernel padding input) (Backend.appendForward kernel padding input)
  appendGradient (forward : Handle) (kernel : Kernel) (outputGradient : Handle) :
    Related R (Backend.appendGradient forward kernel outputGradient)
      (Backend.appendGradient forward kernel outputGradient)
  appendConcatenation (inputs : List Handle) :
    Related R (Backend.appendConcatenation inputs) (Backend.appendConcatenation inputs)
  appendConcatenationGradient (concatenation outputGradient : Handle) :
    Related R (Backend.appendConcatenationGradient concatenation outputGradient)
      (Backend.appendConcatenationGradient concatenation outputGradient)
  appendOutputGradient (output : Handle) :
    Related R (Backend.appendOutputGradient output) (Backend.appendOutputGradient output)
  appendAccumulation (gradients : List Handle) :
    Related R (Backend.appendAccumulation gradients) (Backend.appendAccumulation gradients)

/-- Layers that differ in their stores at most, and backends that do not tell related layers
apart when these ask for their forward kernels. -/
structure Layer.Alike (E : Layer → Layer → Prop) (R : β → γ → Prop) : Prop where
  bare {l l' : Layer} (h : E l l') : l.bare = l'.bare
  requestForward (kernel : Kernel) (shape : Shape) (input : Handle) :
    Related (Across E R) (requestForward kernel shape input) (requestForward kernel shape input)

variable {E : Layer → Layer → Prop} {R : β → γ → Prop}

/-! ## Layers and fusions -/

theorem FusionNodes.related_appendBare (hR : Backend.Alike R) (kernel : Kernel)
    (padding : PaddingPolicy) (input : Handle) :
    Related R (appendBare kernel padding input) (appendBare kernel padding input) :=
  related_zoom (related_mapError (hR.appendForward kernel padding input))
    (fun _ _ hst => ⟨hst, rfl⟩) fun _ _ _ _ huv _ => huv.1

theorem FusionNodes.related_append (hR : Backend.Alike R) (plan : FusionPlan)
    (sources : List Handle) (area : Shape) :
    Related R (append plan sources area) (append plan sources area) := by
  unfold append
  split
  · exact related_fail _
  split
  · exact related_fail _
  refine related_bind (related_mapError (hR.appendConcatenation sources)) fun concatenation => ?_
  refine related_bind (related_ofExcept _) fun kernel => ?_
  refine related_bind (related_appendBare hR kernel _ concatenation) fun contraction => ?_
  exact related_bind (related_say _ _ _ _) fun _ => related_pure _

theorem FusionNodes.related_appendGradients (hR : Backend.Alike R) (nodes : FusionNodes)
    (outputGradient : Handle) :
    Related R (appendGradients nodes outputGradient) (appendGradients nodes outputGradient) := by
  rw [appendGradients]
  refine related_bind (related_mapError (hR.appendGradient _ _ _)) fun gradient => ?_
  refine related_bind (related_mapError (hR.appendConcatenationGradient _ _)) fun gradients => ?_
  split
  · exact related_fail _
  · exact related_pure _

/-- Equal layers ask alike. -/
theorem Layer.alike_eq (hR : Backend.Alike R) : Layer.Alike Eq R where
  bare := congrArg Layer.bare
  requestForward := by
    rintro kernel shape input ⟨l, b⟩ ⟨-, c⟩ ⟨rfl, hbc⟩
    obtain ⟨hresult, hstate, hstore⟩ :=
      related_mapError (f := Failure.backend) (hR.appendForward kernel l.padding input)
        (b, l.prepareStore shape) (c, l.prepareStore shape) ⟨hbc, rfl⟩
    exact ⟨hresult, congrArg l.withStore hstore, hstate⟩

theorem Layer.across_appendForward (hE : Layer.Alike E R) (shape : Shape) (input : Handle) :
    Related (Across E R) (appendForward shape input) (appendForward shape input) := by
  refine across_look fun l l' _ _ hl => ?_
  dsimp only
  rw [Layer.kernel_eq_of_bare (hE.bare hl)]
  refine related_bind (related_note _ _) fun _ => ?_
  refine related_bind (related_ofExcept _) fun kernel => ?_
  refine related_bind (hE.requestForward kernel shape input) fun node => ?_
  exact related_bind (related_say _ _ _ _) fun _ => related_pure node

theorem Layer.related_appendGradient (hR : Backend.Alike R) {l l' : Layer}
    (hl : l.bare = l'.bare) (forward : Handle) (shape : Shape) (outputGradient : Handle) :
    Related R (l.appendGradient forward shape outputGradient)
      (l'.appendGradient forward shape outputGradient) := by
  rw [appendGradient, appendGradient, Layer.kernel_eq_of_bare hl]
  refine related_bind (related_note _ _) fun _ => ?_
  refine related_bind (related_ofExcept _) fun kernel => ?_
  refine related_bind (related_mapError (hR.appendGradient forward kernel _)) fun node => ?_
  exact related_bind (related_say _ _ _ _) fun _ => related_pure node

/-! ## Flows -/

namespace Flow

theorem across_appendLayers (hE : Layer.Alike E R) (shapes : List Shape) (current : Handle) :
    Related (Across (List.Forall₂ E) R) (appendLayers shapes current)
      (appendLayers shapes current) := by
  induction shapes generalizing current with
  | nil => exact related_pure []
  | cons shape shapes ih =>
    rintro ⟨layers, b⟩ ⟨layers', c⟩ ⟨hlayers, hbc⟩
    cases hlayers with
    | nil => exact ⟨rfl, .nil, hbc⟩
    | @cons l l' rest rest' hl hrest =>
      -- Both sides go the way of the first layer: on with the next ones, or back with the failure.
      obtain ⟨hresult, hlayer, hstate⟩ :=
        Layer.across_appendForward hE shape current (l, b) (l', c) ⟨hl, hbc⟩
      unfold Op.run appendLayers
      dsimp only at hresult hlayer hstate ⊢
      rw [hresult]
      cases hnode : ((Layer.appendForward shape current).run (l', c)).result with
      | error e => exact ⟨rfl, .cons hlayer hrest, hstate⟩
      | ok node =>
        obtain ⟨hmore, hlayers, hlast⟩ := ih node (rest, _) (rest', _) ⟨hrest, hstate⟩
        exact ⟨congrArg (Except.map (node :: ·)) hmore, .cons hlayer hlayers, hlast⟩

theorem related_appendFusion (hR : Backend.Alike R) (f : Flow) (handles : List Handle)
    (alignment : Nat) :
    Related R (f.appendFusion handles alignment) (f.appendFusion handles alignment) := by
  unfold appendFusion
  split
  · exact related_pure _
  refine related_bind (related_ofExcept _) fun counts => ?_
  refine related_bind (related_ofExcept _) fun plan => ?_
  refine related_bind (FusionNodes.related_append hR plan handles _) fun nodes => ?_
  exact related_pure _

theorem across_buildForward (hR : Backend.Alike R) (hE : Layer.Alike E R) (raw : List Handle)
    (outputs : List (Option Handle)) (alignment : Nat) :
    Related (Across (Flow.Like E) R) (buildForward raw outputs alignment)
      (buildForward raw outputs alignment) := by
  refine across_look fun f f' _ _ hf => ?_
  -- The layers come last; what comes before does not look at them.
  obtain ⟨label, inputs, layers, shapes, state⟩ := f
  obtain ⟨_, _, layers', _, _⟩ := f'
  obtain ⟨⟨⟩, ⟨⟩, hlayers, ⟨⟩, ⟨⟩⟩ := hf
  refine related_bind (related_ofExcept _) fun _ => ?_
  refine related_bind (related_ofExcept _) fun handles => ?_
  refine related_bind (across_beside (related_appendFusion hR _ handles alignment)) ?_
  rintro ⟨fusion, start⟩
  refine related_bind ?_ fun nodes => ?_
  · refine related_zoom (across_appendLayers hE shapes.layerInputs start)
      (fun _ _ hst => ⟨hst.1.layers, hst.2⟩) fun _ _ _ _ huv hst => ⟨?_, huv.2⟩
    exact ⟨hst.1.label, hst.1.inputs, huv.1, hst.1.shapes, hst.1.state⟩
  refine related_bind (related_say _ _ _ _) fun _ => ?_
  refine related_bind (related_modify fun _ _ hst => ⟨?_, hst.2⟩) fun _ => related_pure _
  exact ⟨hst.1.label, hst.1.inputs, hst.1.layers, hst.1.shapes, rfl⟩

/-- Layers that were built on two sides, with the same shapes and nodes. -/
def BuiltLayer.Like (E : Layer → Layer → Prop) (b b' : BuiltLayer) : Prop :=
  E b.layer b'.layer ∧ b.input = b'.input ∧ b.node = b'.node

theorem Like.builtLayers {f f' : Flow} (h : Flow.Like E f f') (forward : ForwardNodes) :
    List.Forall₂ (BuiltLayer.Like E) (f.builtLayers forward) (f'.builtLayers forward) := by
  have hzip : ∀ {α β : Type} {Q : α → α → Prop} {xs ys : List α} (zs : List β),
      List.Forall₂ Q xs ys →
      List.Forall₂ (fun p q => Q p.1 q.1 ∧ p.2 = q.2) (xs.zip zs) (ys.zip zs) := by
    intro α β Q xs ys zs hall
    induction hall generalizing zs with
    | nil => exact .nil
    | cons hfirst hrest ih =>
      cases zs with
      | nil => exact .nil
      | cons z zs => exact .cons ⟨hfirst, rfl⟩ (ih zs)
  rw [Flow.builtLayers, Flow.builtLayers, h.shapes, List.forall₂_map_left_iff,
    List.forall₂_map_right_iff]
  refine (hzip forward.layers (hzip f'.shapes.layerInputs h.layers)).imp ?_
  exact fun _ _ hentry => ⟨hentry.1.1, hentry.1.2, hentry.2⟩

theorem related_appendLayerGradients (hR : Backend.Alike R) (hE : Layer.Alike E R)
    {built built' : List BuiltLayer} (hbuilt : List.Forall₂ (BuiltLayer.Like E) built built')
    (gradient : Handle) :
    Related R (appendLayerGradients built gradient) (appendLayerGradients built' gradient) := by
  induction hbuilt generalizing gradient with
  | nil => exact related_pure gradient
  | @cons first first' rest rest' hfirst hrest ih =>
    obtain ⟨hlayer, hinput, hnode⟩ := hfirst
    have hnext := Layer.related_appendGradient hR (hE.bare hlayer) first.node first.input gradient
    rw [appendLayerGradients, appendLayerGradients, ← hinput, ← hnode]
    exact related_bind hnext ih

theorem across_appendGradients (hR : Backend.Alike R) (hE : Layer.Alike E R) {f f' : Flow}
    (hf : Flow.Like E f f') (forward : ForwardNodes) (outputGradient : Handle) :
    Related R (f.appendGradients forward outputGradient)
      (f'.appendGradients forward outputGradient) := by
  have hbuilt := List.forall₂_reverse_iff.mpr (hf.builtLayers forward)
  refine related_bind (related_appendLayerGradients hR hE hbuilt outputGradient) fun gradient => ?_
  split
  · exact FusionNodes.related_appendGradients hR _ gradient
  · exact related_pure _

theorem across_buildBackward (hR : Backend.Alike R) (hE : Layer.Alike E R)
    (outputGradient : Handle) :
    Related (Across (Flow.Like E) R) (buildBackward outputGradient)
      (buildBackward outputGradient) := by
  refine across_look fun f f' _ _ hf => ?_
  dsimp only
  rw [hf.state]
  split
  · next forward hforward =>
    refine related_bind (across_beside (across_appendGradients hR hE hf forward outputGradient))
      fun gradients => ?_
    refine related_bind (related_modify fun _ _ hst => ⟨?_, hst.2⟩) fun _ => related_pure _
    exact ⟨hst.1.label, hst.1.inputs, hst.1.layers, hst.1.shapes, rfl⟩
  · exact related_fail _

theorem related_buildForward (hR : Backend.Alike R) (raw : List Handle)
    (outputs : List (Option Handle)) (alignment : Nat) :
    Related (Beside R) (buildForward raw outputs alignment)
      (buildForward raw outputs alignment) :=
  related_of_across like_eq (across_buildForward hR (Layer.alike_eq hR) raw outputs alignment)

theorem related_buildBackward (hR : Backend.Alike R) (outputGradient : Handle) :
    Related (Beside R) (buildBackward outputGradient) (buildBackward outputGradient) :=
  related_of_across like_eq (across_buildBackward hR (Layer.alike_eq hR) outputGradient)

end Flow

/-! ## Graphs -/

namespace Graph

theorem across_buildForwardIn (hR : Backend.Alike R) (hE : Layer.Alike E R) (raw : List Handle)
    (alignment : Nat) (order : List Nat) (outputs : List (Option Handle)) :
    Related (Across (Graph.Like E) R) (buildForwardIn raw alignment order outputs)
      (buildForwardIn raw alignment order outputs) := by
  induction order generalizing outputs with
  | nil => exact related_pure outputs
  | cons id rest ih =>
    exact related_bind (across_onFlow (Flow.across_buildForward hR hE raw outputs alignment) id)
      fun output => ih _

theorem across_buildForwardAll (hR : Backend.Alike R) (hE : Layer.Alike E R)
    (raw : List Handle) :
    Related (Across (Graph.Like E) R) (buildForwardAll raw) (buildForwardAll raw) := by
  refine related_bind (across_onGraph related_ensureVerified) fun analysis => ?_
  refine across_look fun g g' _ _ hg => ?_
  dsimp only
  rw [hg.config, hg.size]
  refine related_bind (across_buildForwardIn hR hE raw _ _ _) fun outputs => ?_
  exact related_ofExcept _

theorem related_enteringGradient (hR : Backend.Alike R) (output : Handle)
    (arrived : List Handle) :
    Related R (enteringGradient output arrived) (enteringGradient output arrived) := by
  unfold enteringGradient
  split
  · exact related_mapError (hR.appendOutputGradient output)
  · exact related_mapError (hR.appendAccumulation arrived)

theorem across_buildBackwardIn (hR : Backend.Alike R) (hE : Layer.Alike E R) (order : List Nat)
    (handed : List (Source × Handle)) :
    Related (Across (Graph.Like E) R) (buildBackwardIn order handed)
      (buildBackwardIn order handed) := by
  induction order generalizing handed with
  | nil => exact related_pure handed
  | cons id rest ih =>
    refine across_look fun g g' _ _ hg => ?_
    refine related_ofExcept_bind (hg.flow id) fun f f' hf => ?_
    rw [Flow.outputHandle?, Flow.outputHandle?, hf.state, hf.inputs]
    split
    · exact related_fail _
    · next output houtput =>
      refine related_bind (across_beside (related_enteringGradient hR output _)) fun entering => ?_
      exact related_bind (across_onFlow (Flow.across_buildBackward hR hE entering) id)
        fun gradients => ih _

theorem related_rawGradient (hR : Backend.Alike R) (handed : List (Source × Handle))
    (slot : Nat) : Related R (rawGradient handed slot) (rawGradient handed slot) := by
  unfold rawGradient
  split
  · exact related_pure none
  · exact related_bind (related_mapError (hR.appendAccumulation _)) fun sum => related_pure _

theorem across_buildBackwardAll (hR : Backend.Alike R) (hE : Layer.Alike E R) :
    Related (Across (Graph.Like E) R) (buildBackwardAll (β := β)) (buildBackwardAll (β := γ)) := by
  refine related_bind (across_onGraph related_ensureVerified) fun analysis => ?_
  refine related_bind (across_buildBackwardIn hR hE _ []) fun handed => ?_
  refine across_look fun g g' _ _ hg => ?_
  dsimp only
  rw [hg.rawInputs]
  exact across_beside (related_forEach (related_rawGradient hR handed) _)

/-- What is left of a complete build once all shapes are inferred. -/
def buildInferred (raw : List Handle) : Op Failure (Graph × β) GraphBuild := do
  let outputs ← buildForwardAll raw
  let gradients ← buildBackwardAll
  let (g, _) ← Op.get
  let present := gradients.countP Option.isSome
  Op.say .info (s!"Built {g.size} flow(s): {outputs.length} output(s), " ++
    s!"{present} raw gradient(s)")
  pure ⟨outputs, gradients⟩

omit [Backend γ] in
theorem buildAll_eq (raw : List Handle) : (buildAll raw : Op Failure (Graph × β) GraphBuild) =
    onGraph inferAll >>= fun _ => buildInferred raw := rfl

/-- Builds of graphs with related layers answer alike and leave related graphs. -/
theorem across_buildInferred (hR : Backend.Alike R) (hE : Layer.Alike E R) (raw : List Handle) :
    Related (Across (Graph.Like E) R) (buildInferred raw) (buildInferred raw) := by
  refine related_bind (across_buildForwardAll hR hE raw) fun outputs => ?_
  refine related_bind (across_buildBackwardAll hR hE) fun gradients => ?_
  refine across_look fun g g' _ _ _ => ?_
  exact related_bind (related_say _ _ _ _) fun _ => related_pure _

theorem related_buildForwardAll (hR : Backend.Alike R) (raw : List Handle) :
    Related (Beside R) (buildForwardAll raw) (buildForwardAll raw) :=
  related_of_across like_eq (across_buildForwardAll hR (Layer.alike_eq hR) raw)

theorem related_buildBackwardAll (hR : Backend.Alike R) :
    Related (Beside R) (buildBackwardAll (β := β)) (buildBackwardAll (β := γ)) :=
  related_of_across like_eq (across_buildBackwardAll hR (Layer.alike_eq hR))

/-- Complete builds on two backends that are alike answer alike and leave equal graphs. -/
theorem related_buildAll (hR : Backend.Alike R) (raw : List Handle) :
    Related (Beside R) (buildAll raw) (buildAll raw) := by
  have hinferred := across_buildInferred hR (Layer.alike_eq hR) raw
  have hinfer : Related (Graph.Like Eq) inferAll inferAll := by
    rw [like_eq]
    rintro g _ rfl
    exact ⟨rfl, rfl⟩
  exact related_of_across like_eq (related_bind (across_onGraph hinfer) fun _ => hinferred)

end Graph

end LayerFlow
