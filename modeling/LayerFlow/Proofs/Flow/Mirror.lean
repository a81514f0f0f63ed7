/-
LayerFlow.Proofs.Flow.Mirror

The backward build of a flow asks for the gradients of what the forward build asked for, request
by request from the last to the first.  In between it passes one gradient on: each layer gets the
gradient of the layer after it.

Main statements: `mirrors_of_builds`, the requests of the two builds mirror each other, and
`BuildBackwardCalls.propagated`, how the gradients of a flow hang together on the tape.
-/
import LayerFlow.Proofs.Backend.Recording
import LayerFlow.Proofs.Flow.Calls
import Mathlib.Data.List.Forall2

namespace LayerFlow

/-- A request of a forward build and the one for its gradient. -/
inductive Call.Mirrors : Call → Call → Prop
  | kernel (kernel : Kernel) (padding : PaddingPolicy) (input node source answer : Handle) :
      Mirrors (.forward kernel padding input node) (.gradient node kernel source answer)
  | concatenation {inputs answers : List Handle} (node source : Handle)
      (hcount : answers.length = inputs.length) :
      Mirrors (.concatenation inputs node) (.concatenationGradient node source answers)

namespace Flow

/-! ## Request by request -/

theorem GradientCalls.append {first second : List BuiltLayer} {start last : Handle}
    {calls : List Call} (h : GradientCalls (first ++ second) start last calls) :
    ∃ middle firstCalls secondCalls, GradientCalls first start middle firstCalls ∧
      GradientCalls second middle last secondCalls ∧ calls = firstCalls ++ secondCalls := by
  induction first generalizing start calls with
  | nil => exact ⟨start, [], calls, .nil start, h, rfl⟩
  | cons built rest ih =>
    rw [List.cons_append] at h
    cases h with
    | cons hkernel hrest =>
      obtain ⟨middle, firstCalls, secondCalls, hfirst, hsecond, rfl⟩ := ih hrest
      exact ⟨middle, _, secondCalls, .cons hkernel hfirst, hsecond, rfl⟩

/-- The last layer of a chain that is built backward, apart from those after it. -/
theorem GradientCalls.of_reverse_cons {first : BuiltLayer} {rest : List BuiltLayer}
    {start last : Handle} {calls : List Call}
    (h : GradientCalls (first :: rest).reverse start last calls) :
    ∃ middle kernel restCalls, GradientCalls rest.reverse start middle restCalls ∧
      first.layer.kernel first.input = .ok kernel ∧
      calls = restCalls ++ [.gradient first.node kernel middle last] := by
  rw [List.reverse_cons] at h
  obtain ⟨middle, restCalls, _, hrest, hfirst, rfl⟩ := h.append
  cases hfirst with
  | cons hkernel hnil =>
    cases hnil
    exact ⟨middle, _, restCalls, hrest, hkernel, rfl⟩

/-- The layers with their input shapes and nodes. -/
def builts (layers : List Layer) (shapes : List Shape) (nodes : List Handle) :
    List BuiltLayer :=
  ((layers.zip shapes).zip nodes).map fun entry => ⟨entry.1.1, entry.1.2, entry.2⟩

theorem mirrors_of_layers {layers layers' : List Layer} {shapes : List Shape}
    {start entering last : Handle} {nodes : List Handle} {calls gradientCalls : List Call}
    (h : ForwardCalls layers shapes start nodes calls)
    (hbare : layers'.map Layer.bare = layers.map Layer.bare)
    (hgradients : GradientCalls (builts layers' shapes nodes).reverse entering last
      gradientCalls) :
    List.Forall₂ Call.Mirrors calls.reverse gradientCalls := by
  induction h generalizing layers' last gradientCalls with
  | nil start =>
    rw [List.map_nil, List.map_eq_nil_iff] at hbare
    subst hbare
    cases hgradients
    exact .nil
  | @cons l layers shape shapes kernel start node nodes calls hkernel hrest ih =>
    -- The first layer forward is the last one backward.
    cases layers' with
    | nil => simp at hbare
    | cons l' rest' =>
      obtain ⟨hhead, htail⟩ := List.cons_eq_cons.mp hbare
      have hcons : GradientCalls (⟨l', shape, node⟩ :: builts rest' shapes nodes).reverse
          entering last gradientCalls := hgradients
      obtain ⟨middle, found, restCalls, hrestCalls, hfound, rfl⟩ := hcons.of_reverse_cons
      have hsame : found = kernel := by
        have heq := Layer.kernel_eq_of_bare hhead shape
        exact Except.ok.inj (hfound.symm.trans (heq.trans hkernel))
      subst hsame
      rw [List.reverse_cons]
      exact List.rel_append (ih htail hrestCalls) (.cons (.kernel _ _ _ _ _ _) .nil)

/-- A backward build asks for the gradients of what the forward build asked for, last to
first. -/
theorem mirrors_of_builds {f f' : Flow} {raw : List Handle} {outputs : List (Option Handle)}
    {alignment : Nat} {forward : ForwardNodes} {entering : Handle} {gradients : List Handle}
    {calls gradientCalls : List Call}
    (h : BuildForwardCalls f raw outputs alignment forward calls)
    (hbare : f'.layers.map Layer.bare = f.layers.map Layer.bare) (hshapes : f'.shapes = f.shapes)
    (hgradients : BuildBackwardCalls f' forward entering gradients gradientCalls) :
    List.Forall₂ Call.Mirrors calls.reverse gradientCalls := by
  cases h with
  | intro hsources hfusion hlayers =>
    -- Reversed, the layers come first and the fusion last, as in the backward build.
    rw [List.reverse_append]
    cases hfusion with
    | single source =>
      cases hgradients with
      | single hnone hgradients =>
        rw [builtLayers, hshapes] at hgradients
        rw [List.reverse_nil, List.append_nil]
        exact mirrors_of_layers hlayers hbare hgradients
      -- Both builds agree on whether there is a fusion.
      | several middle hsome => cases hsome
    | several htwo hplan hkernel hcount =>
      cases hgradients with
      | single hnone => cases hnone
      | several middle hsome hgradients hlength =>
        cases hsome
        rw [builtLayers, hshapes] at hgradients
        refine List.rel_append (mirrors_of_layers hlayers hbare hgradients) ?_
        refine .cons (.kernel _ _ _ _ _ _) (.cons (.concatenation _ _ ?_) .nil)
        rw [hlength, hcount]

/-! ## The two ends of a fusion -/

theorem ForwardCalls.not_mem_concatenation {layers : List Layer} {shapes : List Shape}
    {start : Handle} {nodes : List Handle} {calls : List Call}
    (h : ForwardCalls layers shapes start nodes calls) (sources : List Handle) (node : Handle) :
    .concatenation sources node ∉ calls := by
  induction h with
  | nil start => simp
  | cons hkernel hrest ih =>
    intro hmem
    rcases List.mem_cons.mp hmem with heq | hmem
    · cases heq
    · exact ih hmem

/-- A forward build that concatenates starts with the concatenation and its contraction. -/
theorem BuildForwardCalls.eq_of_concatenation {f : Flow} {raw : List Handle}
    {outputs : List (Option Handle)} {alignment : Nat} {forward : ForwardNodes}
    {calls : List Call} (h : BuildForwardCalls f raw outputs alignment forward calls)
    {sources : List Handle} {node : Handle} (hmem : .concatenation sources node ∈ calls) :
    ∃ nodes rest, forward.fusion = some nodes ∧ nodes.concatenation = node ∧
      nodes.sourceCount = sources.length ∧
      calls = .concatenation sources node ::
        .forward nodes.kernel .validOnly node nodes.contraction :: rest := by
  cases h with
  | intro hsources hfusion hlayers =>
    rcases List.mem_append.mp hmem with hmem | hmem
    · cases hfusion with
      | single => cases hmem
      | @several _ plan nodes htwo hplan hkernel hcount =>
        simp only [List.mem_cons, List.not_mem_nil, or_false, reduceCtorEq,
          Call.concatenation.injEq] at hmem
        obtain ⟨rfl, rfl⟩ := hmem
        exact ⟨nodes, _, rfl, rfl, hcount, rfl⟩
    -- Layers ask for no concatenation.
    · exact absurd hmem (hlayers.not_mem_concatenation sources node)

/-- A backward build of a fusion ends with the contraction and the concatenation. -/
theorem BuildBackwardCalls.eq_of_fusion {f : Flow} {forward : ForwardNodes} {entering : Handle}
    {gradients : List Handle} {calls : List Call} {nodes : FusionNodes}
    (h : BuildBackwardCalls f forward entering gradients calls)
    (hfusion : forward.fusion = some nodes) :
    ∃ front source middle, gradients.length = nodes.sourceCount ∧
      calls = front ++ [.gradient nodes.contraction nodes.kernel source middle,
        .concatenationGradient nodes.concatenation middle gradients] := by
  cases h with
  | single hnone =>
    rw [hfusion] at hnone
    cases hnone
  | several middle hsome hlayers hcount =>
    rw [hfusion] at hsome
    cases hsome
    exact ⟨_, _, middle, hcount, rfl⟩

/-! ## How the gradients hang together -/

/-- The gradients of layers, first to last, with the node of each: each of them takes in the
gradient of the next layer, and the last one the gradient of the output of the flow. -/
inductive LayerGradients (records : List (Handle × Instruction)) (entering : Handle) :
    (nodes gradients : List Handle) → Prop
  | nil : LayerGradients records entering [] []
  | cons {node gradient : Handle} {nodes gradients : List Handle} (label : String)
      (hnode : (gradient, .gradient node label (gradients.head?.getD entering)) ∈ records)
      (hrest : LayerGradients records entering nodes gradients) :
      LayerGradients records entering (node :: nodes) (gradient :: gradients)

/-- The gradients of the sources of a flow: that of the input of its layers, or the parts of its
gradient through the contraction. -/
inductive SourceGradients (records : List (Handle × Instruction)) (forward : ForwardNodes)
    (first : Handle) : List Handle → Prop
  | single (hfusion : forward.fusion = none) : SourceGradients records forward first [first]
  | several {nodes : FusionNodes} {middle : Handle} {gradients : List Handle}
      (hfusion : forward.fusion = some nodes)
      (hnode : (middle, .gradient nodes.contraction nodes.kernel.label first) ∈ records)
      (hparts : ∀ k part, gradients[k]? = some part →
        (part, .concatGradient nodes.concatenation k middle) ∈ records) :
      SourceGradients records forward first gradients

theorem LayerGradients.mono {records more : List (Handle × Instruction)} {entering : Handle}
    {nodes gradients : List Handle} (h : LayerGradients records entering nodes gradients)
    (hsubset : records ⊆ more) : LayerGradients more entering nodes gradients := by
  induction h with
  | nil => exact .nil
  | cons label hnode hrest ih => exact .cons label (hsubset hnode) ih

theorem SourceGradients.mono {records more : List (Handle × Instruction)} {forward : ForwardNodes}
    {first : Handle} {gradients : List Handle}
    (h : SourceGradients records forward first gradients) (hsubset : records ⊆ more) :
    SourceGradients more forward first gradients := by
  cases h with
  | single hfusion => exact .single hfusion
  | several hfusion hnode hparts =>
    exact .several hfusion (hsubset hnode) fun k part hpart => hsubset (hparts k part hpart)

theorem GradientCalls.layerGradients {builts : List BuiltLayer} {entering last : Handle}
    {calls : List Call} (h : GradientCalls builts.reverse entering last calls) :
    ∃ gradients, last = gradients.head?.getD entering ∧
      LayerGradients (calls.flatMap Call.records) entering (builts.map BuiltLayer.node)
        gradients := by
  induction builts generalizing last calls with
  | nil =>
    cases h
    exact ⟨[], rfl, .nil⟩
  | cons first rest ih =>
    -- The first layer is the last one to be differentiated.
    obtain ⟨middle, kernel, restCalls, hrest, -, rfl⟩ := h.of_reverse_cons
    obtain ⟨gradients, rfl, hgradients⟩ := ih hrest
    rw [List.flatMap_append]
    refine ⟨last :: gradients, rfl, .cons kernel.label ?_ ?_⟩
    · exact List.mem_append_right _ List.mem_cons_self
    · exact hgradients.mono (List.subset_append_left _ _)

/-- A backward build passes the gradient of the output on, layer by layer, to the sources. -/
theorem BuildBackwardCalls.propagated {f : Flow} {forward : ForwardNodes} {entering : Handle}
    {gradients : List Handle} {calls : List Call}
    (h : BuildBackwardCalls f forward entering gradients calls)
    (hnodes : (f.builtLayers forward).map BuiltLayer.node = forward.layers) :
    ∃ layerGradients,
      LayerGradients (calls.flatMap Call.records) entering forward.layers layerGradients ∧
      SourceGradients (calls.flatMap Call.records) forward (layerGradients.head?.getD entering)
        gradients := by
  cases h with
  | single hnone hlayers =>
    obtain ⟨layerGradients, rfl, hgradients⟩ := hlayers.layerGradients
    rw [hnodes] at hgradients
    exact ⟨layerGradients, hgradients, .single hnone⟩
  | @several middle last _ calls nodes hsome hlayers hcount =>
    obtain ⟨layerGradients, rfl, hgradients⟩ := hlayers.layerGradients
    rw [hnodes] at hgradients
    rw [List.flatMap_append]
    refine ⟨layerGradients, hgradients.mono (List.subset_append_left _ _), ?_⟩
    refine @SourceGradients.several _ _ _ nodes middle _ hsome ?_ fun k part hpart => ?_
    · exact List.mem_append_right _ List.mem_cons_self
    -- Each part of the concatenation has a node of its own.
    apply List.mem_append_right
    refine List.mem_flatMap.mpr ⟨_, List.mem_cons_of_mem _ List.mem_cons_self, ?_⟩
    exact List.mem_map.mpr ⟨(part, k), List.mem_zipIdx_iff_getElem?.mpr hpart, rfl⟩

/-- Each node of a forward build belongs to a layer. -/
theorem map_node_builtLayers {f : Flow} {forward : ForwardNodes}
    (hfits : f.Fits f.shapes) (hlength : forward.layers.length = f.layers.length) :
    (f.builtLayers forward).map BuiltLayer.node = forward.layers := by
  rw [builtLayers, List.map_map]
  show (List.zip _ forward.layers).map Prod.snd = _
  rw [List.map_snd_zip]
  rw [List.length_zip, hfits.length_layerInputs, hlength]
  omega

end Flow

end LayerFlow
