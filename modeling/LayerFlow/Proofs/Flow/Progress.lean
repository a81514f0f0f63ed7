/-
LayerFlow.Proofs.Flow.Progress

Builds of a single flow on the tape go through.  A flow with known shapes asks for kernels that
its layers have, each on a node that was just appended, so a forward build can fail in the
arithmetic of a fusion at most; and it leaves its nodes on the tape with their kernels, so the
backward build finds every forward node that it names, and cannot fail at all.

Main statements: `ends_buildForward` and `ends_buildBackward`.
-/
import LayerFlow.Proofs.Backend.Granting
import LayerFlow.Proofs.Flow.Calls
import LayerFlow.Proofs.Flow.Chained
import LayerFlow.Proofs.Fusion.Sizes

namespace LayerFlow

open Op Traversal

/-! ## One layer -/

/-- The node of a layer that was built is on the tape, with the kernel of the layer. -/
def Flow.BuiltLayer.OnTape (t : Tape) (built : Flow.BuiltLayer) : Prop :=
  ∃ kernel padding source, built.layer.kernel built.input = .ok kernel ∧
    t.node? built.node = some (.forward kernel padding source)

theorem Flow.BuiltLayer.OnTape.goesOn {t t' : Tape} {built : Flow.BuiltLayer}
    (h : built.OnTape t) (hgoes : t.GoesOn t') : built.OnTape t' := by
  obtain ⟨kernel, padding, source, hkernel, hnode⟩ := h
  exact ⟨kernel, padding, source, hkernel, hgoes.node? hnode⟩

namespace Layer

variable {t : Tape} {E : Failure → Prop}

/-- A layer that has a kernel gets its node. -/
theorem ends_appendForward {l : Layer} {shape : Shape} {kernel : Kernel} {input : Handle}
    (hkernel : l.kernel shape = .ok kernel) (hopen : t.rejects = none) (hinput : t.Has input) :
    (appendForward shape input : Op Failure (Layer × Tape) Handle).Ends (l, t)
      (fun node s => t.GoesOn s.2 ∧ s.2.node? node = some (.forward kernel l.padding input)) E := by
  refine ends_get_bind (((yields_note (a := ())).mpr rfl).ends_bind ?_)
  refine (yields_ofExcept.mpr ⟨hkernel, rfl⟩).ends_bind ?_
  have hnode := Tape.ends_appendForward (E := fun e => E (.backend e)) kernel l.padding
    (l.prepareStore shape) hopen hinput
  refine ends_bind (R := fun node s => t.GoesOn s.2 ∧
    s.2.node? node = some (.forward kernel l.padding input)) (ends_zoom (ends_mapError hnode))
    fun node s hs => ?_
  exact ((yields_say (a := ())).mpr rfl).ends_bind (ends_pure hs)

/-- A layer whose node is on the tape gets the gradient of the node. -/
theorem ends_appendGradient {built : Flow.BuiltLayer} (hbuilt : built.OnTape t)
    {outputGradient : Handle} (hgradient : t.Has outputGradient) :
    (built.layer.appendGradient built.node built.input outputGradient : Op Failure Tape Handle).Ends
      t (fun node t' => t.GoesOn t' ∧ t'.Has node) E := by
  obtain ⟨kernel, padding, source, hkernel, hnode⟩ := hbuilt
  refine ((yields_note (a := ())).mpr rfl).ends_bind ?_
  refine (yields_ofExcept.mpr ⟨hkernel, rfl⟩).ends_bind ?_
  have hgranted := Tape.ends_appendGradient (E := fun e => E (.backend e)) hnode rfl hgradient
  refine ends_bind (ends_mapError hgranted) fun node t' ht' => ?_
  exact ((yields_say (a := ())).mpr rfl).ends_bind (ends_pure ht')

end Layer

/-! ## Fusions -/

namespace FusionNodes

/-- The nodes of a fusion are on the tape. -/
structure OnTape (t : Tape) (nodes : FusionNodes) : Prop where
  concatenation : ∃ sources, t.node? nodes.concatenation = some (.concat sources) ∧
    sources.length = nodes.sourceCount
  contraction : ∃ padding source,
    t.node? nodes.contraction = some (.forward nodes.kernel padding source)

theorem OnTape.goesOn {t t' : Tape} {nodes : FusionNodes} (h : nodes.OnTape t)
    (hgoes : t.GoesOn t') : nodes.OnTape t' := by
  obtain ⟨⟨sources, hconcat, hcount⟩, padding, source, hnode⟩ := h
  exact ⟨⟨sources, hgoes.node? hconcat, hcount⟩, padding, source, hgoes.node? hnode⟩

variable {t : Tape} {E : Failure → Prop}

/-- A planned fusion gets its nodes, unless its selection matrix is too large. -/
theorem ends_append {plan : FusionPlan} {sources : List Handle} {area : Shape}
    (hne : sources ≠ []) (hcount : sources.length = plan.sourceCount) (hopen : t.rejects = none)
    (hsources : ∀ h ∈ sources, t.Has h) (hkernel : ∀ e, plan.contraction area = .error e → E e) :
    (append plan sources area : Op Failure Tape FusionNodes).Ends t
      (fun nodes t' => t.GoesOn t' ∧ nodes.OnTape t') E := by
  rw [append, if_neg (by simpa using hne), if_neg (by simpa using hcount)]
  have hconcat := Tape.ends_appendConcatenation (E := fun e => E (.backend e)) hne hsources
  refine ends_bind (ends_mapError hconcat) ?_
  rintro concatenation u ⟨hfirst, hnode⟩
  cases hcontraction : plan.contraction area with
  | error e =>
    exact ends_of_fails (fails_bind.mpr (.inl (fails_ofExcept.mpr ⟨rfl, rfl⟩)))
      (hkernel e hcontraction)
  | ok kernel =>
    refine (yields_ofExcept.mpr ⟨rfl, rfl⟩).ends_bind ?_
    have hbare := Tape.ends_appendForward (E := fun e => E (.backend e)) kernel .validOnly none
      (hfirst.rejects.trans hopen) (Tape.has_of_node? hnode)
    refine ends_bind (R := fun contraction v => u.GoesOn v ∧
      v.node? contraction = some (.forward kernel .validOnly concatenation))
      (ends_zoom (ends_mapError hbare)) ?_
    rintro contraction v ⟨hsecond, hlast⟩
    refine ((yields_say (a := ())).mpr rfl).ends_bind (ends_pure ⟨hfirst.trans hsecond, ?_⟩)
    exact ⟨⟨sources, hsecond.node? hnode, rfl⟩, _, _, hlast⟩

/-- A fusion whose nodes are on the tape gets its gradients, as many as it has sources. -/
theorem ends_appendGradients {nodes : FusionNodes} (hnodes : nodes.OnTape t)
    {outputGradient : Handle} (hgradient : t.Has outputGradient) :
    (nodes.appendGradients outputGradient : Op Failure Tape (List Handle)).Ends t
      (fun gradients t' => t.GoesOn t' ∧ ∀ h ∈ gradients, t'.Has h) E := by
  obtain ⟨⟨sources, hconcat, hcount⟩, padding, source, hnode⟩ := hnodes
  have hmiddle := Tape.ends_appendGradient (E := fun e => E (.backend e)) hnode rfl hgradient
  refine ends_bind (ends_mapError hmiddle) fun middle u ⟨hfirst, hhas⟩ => ?_
  have hparts := Tape.ends_appendConcatenationGradient (E := fun e => E (.backend e))
    (hfirst.node? hconcat) hhas
  refine ends_bind (ends_mapError hparts) fun gradients v ⟨hsecond, hlength, hall⟩ => ?_
  rw [if_neg (by simpa using hlength.trans hcount)]
  exact ends_pure ⟨hfirst.trans hsecond, hall⟩

end FusionNodes

namespace Flow

variable {t : Tape}

/-! ## Flows that can be built -/

/-- The selection matrix of a flow with several sources fits. -/
def FusionFits (alignment : Nat) (shapes : FlowShapes) : Prop :=
  2 ≤ shapes.sources.length →
    FusionPlan.Fits alignment (shapes.sources.map fun s => s.stacked.toNat)

instance (alignment : Nat) (shapes : FlowShapes) : Decidable (FusionFits alignment shapes) :=
  inferInstanceAs (Decidable (_ → _))

/-- A flow that waits to be built forward, with known shapes. -/
structure Ready (f : Flow) : Prop where
  state : f.state = .dimensionsInferred
  fits : f.Fits f.shapes
  known : ∀ s ∈ f.shapes.sources, s.Known
  bounded : ∀ l ∈ f.layers, l.Bounded

namespace Ready

variable {f : Flow}

theorem sources_ne_nil (h : f.Ready) : f.shapes.sources ≠ [] := by
  intro hnil
  have hlength := h.fits.length_sources
  rw [hnil] at hlength
  exact h.fits.inputs_ne_nil (List.eq_nil_of_length_eq_zero hlength.symm)

theorem known_input (h : f.Ready) : f.shapes.input.Known :=
  Shape.known_combine h.sources_ne_nil h.known h.fits.combine

theorem checkForward (h : f.Ready) : f.checkForward = .ok () := by
  rw [Flow.checkForward, if_neg (not_not.mpr h.state),
    if_neg (by simpa using h.fits.inputs_ne_nil), if_pos h.known_input.isResolved]

end Ready

/-- Along a chain from a known shape every layer has a kernel on its input. -/
theorem kernels_of_chain {layers : List Layer} {input output : Shape} {inputs : List Shape}
    (hbounded : ∀ l ∈ layers, l.Bounded) (hinput : input.Known)
    (h : chain layers input = .ok (inputs, output)) :
    List.Forall₂ (fun l s => ∃ kernel, l.kernel s = .ok kernel) layers inputs := by
  induction layers generalizing input inputs with
  | nil =>
    cases h
    exact .nil
  | cons l rest ih =>
    rw [List.forall_mem_cons] at hbounded
    obtain ⟨next, hnext, hrest⟩ := bind_eq_ok_iff.mp h
    obtain ⟨⟨more, last⟩, hchain, heq⟩ := bind_eq_ok_iff.mp hrest
    cases pure_eq_ok_iff.mp heq
    have hknown := l.known_outputShape hbounded.1 hinput hnext
    exact .cons (Layer.exists_kernel hinput.isResolved hnext) (ih hbounded.2 hknown hchain)

/-! ## Forward -/

/-- The plan of a fusion of known shapes, and its contraction, can only overflow, and do not if
the selection matrix fits. -/
theorem fusionPlan_cases {f : Flow} {alignment : Nat} (h : f.Ready) (halign : 0 < alignment)
    (hmany : 2 ≤ f.shapes.sources.length) :
    (∃ plan, f.fusionPlan alignment = .ok plan ∧ plan.sourceCount = f.shapes.sources.length ∧
      ∀ e, plan.contraction f.shapes.input = .error e →
        e = .overflow ∧ ¬ FusionFits alignment f.shapes) ∨
    f.fusionPlan alignment = .error .overflow ∧ ¬ FusionFits alignment f.shapes := by
  obtain ⟨first, second, rest, hsources⟩ :
      ∃ first second rest, f.shapes.sources = first :: second :: rest := by
    rcases heq : f.shapes.sources with _ | ⟨first, _ | ⟨second, rest⟩⟩
    · simp [heq] at hmany
    · simp [heq] at hmany
    · exact ⟨first, second, rest, rfl⟩
  -- Inference has stacked the shapes, so their channels are found again.
  have hcombine := h.fits.combine
  rw [hsources, Shape.combine_eq_stackAll (hsources ▸ h.known), ← hsources] at hcombine
  have hcounts := Shape.mapM_stackedChannels_of_stackAll hcombine
  have hne : (f.shapes.sources.map fun s => s.stacked.toNat) ≠ [] := by simp [hsources]
  have hplan : f.fusionPlan alignment =
      FusionPlan.withAlignment (f.shapes.sources.map fun s => s.stacked.toNat) alignment := by
    rw [fusionPlan, hcounts]
    show FusionPlan.withAlignment ((f.shapes.sources.map _).map Size.ofExtent) alignment = _
    rw [List.map_map]
    rfl
  rw [hplan]
  cases hfound : FusionPlan.withAlignment (f.shapes.sources.map fun s => s.stacked.toNat)
      alignment with
  | error e =>
    refine .inr ⟨?_, fun hfits => ?_⟩
    · rw [FusionPlan.overflowsOnly_withAlignment hne halign e hfound]
    · obtain ⟨plan, hplan⟩ := FusionPlan.exists_withAlignment hne halign (hfits hmany)
      rw [hfound] at hplan
      cases hplan
  | ok plan =>
    refine .inl ⟨plan, rfl, ?_,
      fun e he => ⟨plan.overflowsOnly_contraction _ e he, fun hfits => ?_⟩⟩
    · rw [FusionPlan.sourceCount_of_withAlignment hfound, List.length_map]
    · obtain ⟨kernel, hkernel⟩ :=
        FusionPlan.exists_contraction hfound (hfits hmany) f.shapes.input
      rw [he] at hkernel
      cases hkernel

/-- The handles of known shapes are brought together, unless the selection matrix is too large. -/
theorem ends_appendFusion {f : Flow} {alignment : Nat} (h : f.Ready) (halign : 0 < alignment)
    (hopen : t.rejects = none) {handles : List Handle}
    (hlength : handles.length = f.shapes.sources.length) (hhandles : ∀ h ∈ handles, t.Has h) :
    (f.appendFusion handles alignment : Op Failure Tape (Option FusionNodes × Handle)).Ends t
      (fun start t' => t.GoesOn t' ∧ t'.Has start.2 ∧
        ∀ nodes, start.1 = some nodes → nodes.OnTape t')
      fun e => e = .overflow ∧ ¬ FusionFits alignment f.shapes := by
  have hne : handles ≠ [] := by
    rintro rfl
    exact h.sources_ne_nil (List.eq_nil_of_length_eq_zero hlength.symm)
  unfold appendFusion
  split
  · exact ends_pure ⟨.refl t, hhandles _ List.mem_cons_self, by simp⟩
  next hnot =>
  have hmany : 2 ≤ f.shapes.sources.length := by
    rw [← hlength]
    rcases handles with _ | ⟨first, _ | ⟨second, rest⟩⟩
    · exact absurd rfl hne
    · exact absurd rfl (hnot first)
    · simp
  -- Counting the channels and planning are the two steps of the plan.
  have hsteps : (do
      let counts ← ofExcept (f.shapes.sources.mapM fun s => s.stackedChannels)
      let plan ← ofExcept (FusionPlan.withAlignment (counts.map Size.ofExtent) alignment)
      let nodes ← FusionNodes.append plan handles f.shapes.input
      pure (some nodes, nodes.contraction) : Op Failure Tape (Option FusionNodes × Handle)) =
      ofExcept (f.fusionPlan alignment) >>= fun plan =>
        FusionNodes.append plan handles f.shapes.input >>= fun nodes =>
          pure (some nodes, nodes.contraction) := by
    rw [fusionPlan]
    cases f.shapes.sources.mapM fun s => s.stackedChannels <;> rfl
  rw [hsteps]
  rcases fusionPlan_cases h halign hmany with ⟨plan, hplan, hcount, hkernel⟩ | ⟨hplan, hover⟩
  · refine (yields_ofExcept.mpr ⟨hplan, rfl⟩).ends_bind ?_
    have hnodes := FusionNodes.ends_append hne (hlength.trans hcount.symm) hopen hhandles hkernel
    refine ends_bind hnodes fun nodes u ⟨hgoes, hon⟩ => ends_pure ⟨hgoes, ?_, ?_⟩
    · obtain ⟨_, _, hnode⟩ := hon.contraction
      exact Tape.has_of_node? hnode
    · rintro _ ⟨⟩
      exact hon
  · exact ends_of_fails (fails_bind.mpr (.inl (fails_ofExcept.mpr ⟨hplan, rfl⟩))) ⟨rfl, hover⟩

/-- Layers that have kernels get their nodes, each on the one before. -/
theorem ends_appendLayers {layers : List Layer} {shapes : List Shape} {start : Handle}
    {E : Failure → Prop}
    (hkernels : List.Forall₂ (fun l s => ∃ kernel, l.kernel s = .ok kernel) layers shapes)
    (hopen : t.rejects = none) (hstart : t.Has start) :
    (appendLayers shapes start : Op Failure (List Layer × Tape) (List Handle)).Ends (layers, t)
      (fun nodes s => t.GoesOn s.2 ∧ s.2.Has (nodes.getLast?.getD start) ∧
        ∀ entry ∈ (s.1.zip shapes).zip nodes,
          BuiltLayer.OnTape s.2 ⟨entry.1.1, entry.1.2, entry.2⟩) E := by
  induction hkernels generalizing start t with
  | nil => exact ends_pure ⟨.refl t, hstart, by simp⟩
  | @cons l shape layers shapes hkernel hrest ih =>
    obtain ⟨kernel, hkernel⟩ := hkernel
    rw [ends_congr (run_appendLayers_cons shape shapes start l layers t)]
    -- The layer may change its store, which does not change its kernel.
    have hfirst := (Layer.ends_appendForward (E := E) hkernel hopen hstart).imp
      (Q := fun node s => t.GoesOn s.2 ∧ s.1.bare = l.bare ∧
        s.2.node? node = some (.forward kernel l.padding start))
      fun node s hyields hs => ⟨hs.1, Layer.bare_of_yields_appendForward hyields, hs.2⟩
    refine ends_bind (R := fun node s => ∃ l' u, s = (l' :: layers, u) ∧ t.GoesOn u ∧
      l'.bare = l.bare ∧ u.node? node = some (.forward kernel l.padding start))
      (ends_zoom (hfirst.mono fun node s hs => ⟨s.1, s.2, rfl, hs⟩)) ?_
    rintro node _ ⟨l', u, rfl, hgoes, hbare, hnode⟩
    have hothers := ih (hgoes.rejects.trans hopen) (Tape.has_of_node? hnode)
    refine ends_bind (R := fun nodes s => ∃ rest v, s = (l' :: rest, v) ∧ u.GoesOn v ∧
      v.Has (nodes.getLast?.getD node) ∧ ∀ entry ∈ (rest.zip shapes).zip nodes,
        BuiltLayer.OnTape v ⟨entry.1.1, entry.1.2, entry.2⟩)
      (ends_zoom (hothers.mono fun nodes s hs => ⟨s.1, s.2, rfl, hs⟩)) ?_
    rintro nodes _ ⟨rest, v, rfl, hmore, hlast, hbuilt⟩
    refine ends_pure ⟨hgoes.trans hmore, ?_, ?_⟩
    · rwa [List.getLast?_cons, Option.getD_some]
    · rw [List.zip_cons_cons, List.zip_cons_cons, List.forall_mem_cons]
      refine ⟨⟨kernel, l.padding, start, ?_, hmore.node? hnode⟩, hbuilt⟩
      rw [← hkernel]
      exact Layer.kernel_eq_of_bare hbare shape

/-- The nodes of a forward build are on the tape. -/
structure OnTape (t : Tape) (f : Flow) (forward : ForwardNodes) : Prop where
  layers : ∀ built ∈ f.builtLayers forward, built.OnTape t
  fusion : ∀ nodes, forward.fusion = some nodes → nodes.OnTape t
  output : t.Has forward.output

theorem OnTape.goesOn {t' : Tape} {f : Flow} {forward : ForwardNodes} (h : OnTape t f forward)
    (hgoes : t.GoesOn t') : OnTape t' f forward where
  layers built hbuilt := (h.layers built hbuilt).goesOn hgoes
  fusion nodes hnodes := (h.fusion nodes hnodes).goesOn hgoes
  output := hgoes.has h.output

/-- A flow with known shapes is built on nodes that exist, unless the selection matrix of its
fusion is too large. -/
theorem ends_buildForward {f : Flow} {alignment : Nat} (h : f.Ready) (halign : 0 < alignment)
    (hopen : t.rejects = none) {raw : List Handle} {outputs : List (Option Handle)}
    (hsources : ∀ s ∈ f.inputs, ∃ h, sourceHandle raw outputs s = .ok h ∧ t.Has h) :
    (buildForward raw outputs alignment : Op Failure (Flow × Tape) Handle).Ends (f, t)
      (fun output s => t.GoesOn s.2 ∧ s.1.inputs = f.inputs ∧ ∃ forward,
        s.1.state = .forwardBuilt forward ∧ forward.output = output ∧ OnTape s.2 s.1 forward)
      fun e => e = .overflow ∧ ¬ FusionFits alignment f.shapes := by
  refine ends_get_bind ((yields_ofExcept.mpr ⟨h.checkForward, rfl⟩).ends_bind ?_)
  obtain ⟨handles, hhandles, hhas⟩ := exists_mapM_of_forall hsources
  refine (yields_ofExcept.mpr ⟨hhandles, rfl⟩).ends_bind ?_
  have hlength := (length_of_mapM_eq_ok hhandles).trans h.fits.length_sources.symm
  -- First the sources are brought together.
  refine ends_bind (R := fun start s => ∃ u, s = (f, u) ∧ t.GoesOn u ∧ u.Has start.2 ∧
    ∀ nodes, start.1 = some nodes → nodes.OnTape u)
    (ends_zoom ((ends_appendFusion h halign hopen hlength hhas).mono
      fun start u hu => ⟨u, rfl, hu⟩)) ?_
  rintro ⟨fusion, start⟩ _ ⟨u, rfl, hfirst, hstart, hfusion⟩
  -- Then the layers follow.
  have hkernels := kernels_of_chain h.bounded h.known_input h.fits.chain
  have hlayers := ends_appendLayers
    (E := fun e => e = .overflow ∧ ¬ FusionFits alignment f.shapes) hkernels
    (hfirst.rejects.trans hopen) hstart
  refine ends_bind (R := fun nodes s => ∃ layers v, s = ({ f with layers := layers }, v) ∧
    u.GoesOn v ∧ v.Has (nodes.getLast?.getD start) ∧
    ∀ entry ∈ (layers.zip f.shapes.layerInputs).zip nodes,
      BuiltLayer.OnTape v ⟨entry.1.1, entry.1.2, entry.2⟩)
    (ends_zoom (hlayers.mono fun nodes s hs => ⟨s.1, s.2, rfl, hs⟩)) ?_
  rintro nodes _ ⟨layers, v, rfl, hsecond, hlast, hbuilt⟩
  refine ((yields_say (a := ())).mpr rfl).ends_bind ?_
  refine ((yields_modify (a := ())).mpr rfl).ends_bind (ends_pure ?_)
  refine ⟨hfirst.trans hsecond, rfl, _, rfl, rfl, ?_, ?_, hlast⟩
  · intro built hmem
    obtain ⟨entry, hentry, rfl⟩ := List.mem_map.mp hmem
    exact hbuilt entry hentry
  · exact fun nodes hnodes => (hfusion nodes hnodes).goesOn hsecond

/-! ## Backward -/

section

variable {E : Failure → Prop}

theorem ends_appendLayerGradients {built : List BuiltLayer} (hbuilt : ∀ b ∈ built, b.OnTape t)
    {gradient : Handle} (hgradient : t.Has gradient) :
    (appendLayerGradients built gradient : Op Failure Tape Handle).Ends t
      (fun node t' => t.GoesOn t' ∧ t'.Has node) E := by
  induction built generalizing gradient t with
  | nil => exact ends_pure ⟨.refl t, hgradient⟩
  | cons first rest ih =>
    rw [List.forall_mem_cons] at hbuilt
    refine ends_bind (Layer.ends_appendGradient hbuilt.1 hgradient) fun next u ⟨hfirst, hnext⟩ => ?_
    have hothers := ih (fun b hb => (hbuilt.2 b hb).goesOn hfirst) hnext
    exact hothers.mono fun node v ⟨hmore, hnode⟩ => ⟨hfirst.trans hmore, hnode⟩

theorem ends_appendGradients {f : Flow} {forward : ForwardNodes} (h : OnTape t f forward)
    {outputGradient : Handle} (hgradient : t.Has outputGradient) :
    (f.appendGradients forward outputGradient : Op Failure Tape (List Handle)).Ends t
      (fun gradients t' => t.GoesOn t' ∧ ∀ h ∈ gradients, t'.Has h) E := by
  have hlayers := ends_appendLayerGradients (E := E)
    (fun built hbuilt => h.layers built (List.mem_reverse.mp hbuilt)) hgradient
  refine ends_bind hlayers fun gradient u ⟨hfirst, hlast⟩ => ?_
  split
  · next nodes hnodes =>
    have hparts := FusionNodes.ends_appendGradients (E := E)
      ((h.fusion nodes hnodes).goesOn hfirst) hlast
    exact hparts.mono fun gradients v ⟨hmore, hall⟩ => ⟨hfirst.trans hmore, hall⟩
  · exact ends_pure ⟨hfirst, by simpa using hlast⟩

/-- A flow whose forward nodes are on the tape is built backward. -/
theorem ends_buildBackward {f : Flow} {forward : ForwardNodes}
    (hstate : f.state = .forwardBuilt forward) (h : OnTape t f forward) {outputGradient : Handle}
    (hgradient : t.Has outputGradient) :
    (buildBackward outputGradient : Op Failure (Flow × Tape) (List Handle)).Ends (f, t)
      (fun gradients s => t.GoesOn s.2 ∧ ∀ h ∈ gradients, s.2.Has h) E := by
  refine ends_get_bind ?_
  simp only [hstate]
  refine ends_bind (R := fun gradients s => t.GoesOn s.2 ∧ ∀ h ∈ gradients, s.2.Has h)
    (ends_zoom (ends_appendGradients h hgradient)) fun gradients s hs => ?_
  exact ((yields_modify (a := ())).mpr rfl).ends_bind (ends_pure hs)

end

end Flow

end LayerFlow
