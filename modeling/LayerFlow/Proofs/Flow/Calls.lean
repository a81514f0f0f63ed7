/-
LayerFlow.Proofs.Flow.Calls

The requests that the builds of a flow make of a backend, whatever the backend answers.  A
forward build asks for the fusion of several sources and then for one kernel for each layer,
each on the node before it; a backward build asks for the gradients of the same kernels from the
last to the first, each on the gradient before it, and then for those of the fusion.

Main statements: `yields_buildForward` and `yields_buildBackward`, what a build that succeeds
has asked for and what it leaves of the flow.
-/
import LayerFlow.Proofs.Backend.Calls
import LayerFlow.Proofs.Flow.Shapes

namespace LayerFlow

open Op

variable {β : Type} [Backend β]

/-! ## One layer -/

namespace Layer

theorem bare_of_yields_appendForward {shape : Shape} {input node : Handle} {l l' : Layer}
    {b b' : β} (h : (appendForward shape input).Yields (l, b) node (l', b')) :
    l'.bare = l.bare := by
  obtain ⟨store, hstore⟩ := appendForward_keeps shape input (l, b)
  rw [h.2] at hstore
  rw [show l' = l.withStore store from hstore, bare_withStore]

/-- The backend is asked beside the store of the layer, which gets back what is left of it. -/
theorem yields_requestForward {kernel : Kernel} {shape : Shape} {input node : Handle}
    {s s' : Layer × β} : (requestForward kernel shape input).Yields s node s' ↔
      ∃ u, (Backend.appendForward kernel s.1.padding input).Yields
        (s.2, s.1.prepareStore shape) node u ∧ s' = (s.1.withStore u.2, u.1) := by
  unfold requestForward
  refine yields_zoom.trans (exists_congr fun u => and_congr_left fun _ => ?_)
  exact yields_mapError

theorem fails_requestForward {kernel : Kernel} {shape : Shape} {input : Handle}
    {s s' : Layer × β} {e : Failure} : (requestForward kernel shape input).Fails s e s' ↔
      ∃ u, (∃ fault, (Backend.appendForward kernel s.1.padding input).Fails
        (s.2, s.1.prepareStore shape) fault u ∧ e = .backend fault) ∧
        s' = (s.1.withStore u.2, u.1) := by
  unfold requestForward
  refine fails_zoom.trans (exists_congr fun u => and_congr_left fun _ => ?_)
  exact fails_mapError

/-- A layer that gets its node has a kernel, and the backend granted it. -/
theorem granted_of_yields_appendForward {shape : Shape} {input node : Handle} {l l' : Layer}
    {b b' : β} (h : (appendForward shape input).Yields (l, b) node (l', b')) :
    ∃ kernel store, l.kernel shape = .ok kernel ∧
      (Backend.appendForward kernel l.padding input).Yields (b, l.prepareStore shape) node
        (b', store) ∧ l' = l.withStore store := by
  simp only [appendForward, yields_bind, yields_get, yields_note, yields_ofExcept, yields_say,
    yields_pure] at h
  obtain ⟨_, _, ⟨rfl, rfl⟩, _, _, rfl, kernel, _, ⟨hkernel, rfl⟩, _, _, hrequest, _, _, rfl, rfl,
    rfl⟩ := h
  obtain ⟨⟨inner, store⟩, hnode, hstate⟩ := yields_requestForward.mp hrequest
  cases hstate
  exact ⟨kernel, store, hkernel, hnode, rfl⟩

/-- A layer that does not get its node has no kernel, or the backend refused it. -/
theorem refused_of_fails_appendForward {shape : Shape} {input : Handle} {l l' : Layer}
    {b b' : β} {e : Failure} (h : (appendForward shape input).Fails (l, b) e (l', b')) :
    (l.kernel shape = .error e ∧ l' = l ∧ b' = b) ∨
      ∃ kernel store fault, l.kernel shape = .ok kernel ∧ e = .backend fault ∧
        (Backend.appendForward kernel l.padding input).Fails (b, l.prepareStore shape) fault
          (b', store) ∧ l' = l.withStore store := by
  replace h := fails_get_bind.mp h
  simp only [fails_bind, fails_note, yields_note, fails_ofExcept, yields_ofExcept, fails_say,
    fails_pure, and_false, exists_false, or_false, false_or] at h
  obtain ⟨_, _, rfl, ⟨hkernel, heq⟩ | ⟨kernel, _, ⟨hkernel, rfl⟩, hrequest⟩⟩ := h
  · cases heq
    exact .inl ⟨hkernel, rfl, rfl⟩
  · obtain ⟨⟨inner, store⟩, ⟨fault, hfails, rfl⟩, hstate⟩ := fails_requestForward.mp hrequest
    cases hstate
    exact .inr ⟨kernel, store, fault, hkernel, rfl, hfails, rfl⟩

/-- The forward node of a layer takes one request. -/
theorem yields_appendForward {shape : Shape} {input node : Handle} {l l' : Layer}
    {o o' : Observed β} (h : (appendForward shape input).Yields (l, o) node (l', o')) :
    ∃ kernel, l.kernel shape = .ok kernel ∧
      o'.calls = o.calls ++ [.forward kernel l.padding input node] := by
  obtain ⟨kernel, store, hkernel, hnode, -⟩ := granted_of_yields_appendForward h
  exact ⟨kernel, hkernel, Observed.yields_appendForward hnode⟩

/-- The gradient node of a layer takes one request. -/
theorem yields_appendGradient {l : Layer} {forward : Handle} {shape : Shape}
    {outputGradient node : Handle} {o o' : Observed β}
    (h : (l.appendGradient forward shape outputGradient).Yields o node o') :
    ∃ kernel, l.kernel shape = .ok kernel ∧
      o'.calls = o.calls ++ [.gradient forward kernel outputGradient node] := by
  simp only [appendGradient, yields_bind, yields_note, yields_ofExcept, yields_say, yields_pure,
    yields_mapError] at h
  obtain ⟨_, _, rfl, kernel, _, ⟨hkernel, rfl⟩, _, _, hnode, _, _, rfl, rfl, rfl⟩ := h
  exact ⟨kernel, hkernel, Observed.yields_appendGradient hnode⟩

end Layer

/-! ## Fusions -/

namespace FusionNodes

/-- The nodes of a fusion take two requests. -/
theorem yields_append {plan : FusionPlan} {sources : List Handle} {area : Shape}
    {nodes : FusionNodes} {o o' : Observed β}
    (h : (append plan sources area).Yields o nodes o') :
    sources ≠ [] ∧ plan.contraction area = .ok nodes.kernel ∧
      nodes.sourceCount = sources.length ∧
      o'.calls = o.calls ++ [.concatenation sources nodes.concatenation,
        .forward nodes.kernel .validOnly nodes.concatenation nodes.contraction] := by
  rw [append] at h
  split at h
  · simp at h
  next hne =>
  split at h
  · simp at h
  simp only [yields_bind, yields_mapError, yields_ofExcept, yields_say, yields_pure] at h
  obtain ⟨concatenation, u, hconcat, kernel, _, ⟨hkernel, rfl⟩, contraction, _, hbare, _, _, rfl,
    rfl, rfl⟩ := h
  -- The kernel of the contraction has no store.
  obtain ⟨⟨inner, store⟩, hnode, rfl⟩ := yields_zoom.mp hbare
  have hfirst := Observed.yields_appendConcatenation hconcat
  have hsecond := Observed.yields_appendForward (yields_mapError.mp hnode)
  refine ⟨by simpa using hne, hkernel, rfl, ?_⟩
  rw [hsecond, hfirst, List.append_assoc]
  rfl

/-- The gradients of a fusion take two requests; a wrong number of gradients is noticed. -/
theorem yields_appendGradients {nodes : FusionNodes} {outputGradient : Handle}
    {gradients : List Handle} {o o' : Observed β}
    (h : (nodes.appendGradients outputGradient).Yields o gradients o') :
    gradients.length = nodes.sourceCount ∧
      ∃ middle, o'.calls = o.calls ++
        [.gradient nodes.contraction nodes.kernel outputGradient middle,
          .concatenationGradient nodes.concatenation middle gradients] := by
  simp only [appendGradients, yields_bind, yields_mapError] at h
  obtain ⟨middle, u, hmiddle, found, v, hfound, hcount⟩ := h
  have hfirst := Observed.yields_appendGradient hmiddle
  have hsecond := Observed.yields_appendConcatenationGradient hfound
  split at hcount
  · simp at hcount
  next hlength =>
  obtain ⟨rfl, rfl⟩ := yields_pure.mp hcount
  refine ⟨by simpa using hlength, middle, ?_⟩
  rw [hsecond, hfirst, List.append_assoc]
  rfl

end FusionNodes

namespace Flow

/-! ## Forward -/

/-- The requests for the kernels of layers on their input shapes, each on the node before. -/
inductive ForwardCalls : List Layer → List Shape → (start : Handle) → (nodes : List Handle) →
    List Call → Prop
  | nil (start : Handle) : ForwardCalls [] [] start [] []
  | cons {l : Layer} {layers : List Layer} {shape : Shape} {shapes : List Shape}
      {kernel : Kernel} {start node : Handle} {nodes : List Handle} {calls : List Call}
      (hkernel : l.kernel shape = .ok kernel)
      (hrest : ForwardCalls layers shapes node nodes calls) :
      ForwardCalls (l :: layers) (shape :: shapes) start (node :: nodes)
        (.forward kernel l.padding start node :: calls)

/-- The plan for the fusion of the sources of a flow. -/
def fusionPlan (f : Flow) (alignment : Nat) : Except Failure FusionPlan := do
  let counts ← f.shapes.sources.mapM fun s => s.stackedChannels
  FusionPlan.withAlignment (counts.map Size.ofExtent) alignment

/-- The requests for the fusion of several sources, and the node that the layers start from; a
single source needs no request. -/
inductive FusionCalls (f : Flow) (alignment : Nat) : List Handle → Option FusionNodes →
    (start : Handle) → List Call → Prop
  | single (source : Handle) : FusionCalls f alignment [source] none source []
  | several {sources : List Handle} {plan : FusionPlan} {nodes : FusionNodes}
      (hsources : 2 ≤ sources.length) (hplan : f.fusionPlan alignment = .ok plan)
      (hkernel : plan.contraction f.shapes.input = .ok nodes.kernel)
      (hcount : nodes.sourceCount = sources.length) :
      FusionCalls f alignment sources (some nodes) nodes.contraction
        [.concatenation sources nodes.concatenation,
          .forward nodes.kernel .validOnly nodes.concatenation nodes.contraction]

/-- The requests of a forward build of a flow. -/
inductive BuildForwardCalls (f : Flow) (raw : List Handle) (outputs : List (Option Handle))
    (alignment : Nat) : ForwardNodes → List Call → Prop
  | intro {sources nodes : List Handle} {fusion : Option FusionNodes} {start : Handle}
      {fusionCalls layerCalls : List Call}
      (hsources : f.inputs.mapM (sourceHandle raw outputs) = .ok sources)
      (hfusion : FusionCalls f alignment sources fusion start fusionCalls)
      (hlayers : ForwardCalls f.layers f.shapes.layerInputs start nodes layerCalls) :
      BuildForwardCalls f raw outputs alignment
        ⟨sources, fusion, nodes, nodes.getLast?.getD start⟩ (fusionCalls ++ layerCalls)

/-- A flow is built on the handles of its sources. -/
theorem BuildForwardCalls.mapM_inputs {f : Flow} {raw : List Handle}
    {outputs : List (Option Handle)} {alignment : Nat} {forward : ForwardNodes}
    {calls : List Call} (h : BuildForwardCalls f raw outputs alignment forward calls) :
    f.inputs.mapM (sourceHandle raw outputs) = .ok forward.inputs := by
  cases h with
  | intro hsources hfusion hlayers => exact hsources

/-- A table of handles has what another one has, and maybe more. -/
def Extends (outputs' outputs : List (Option Handle)) : Prop :=
  ∀ (id : Nat) (h : Handle), outputs[id]? = some (some h) → outputs'[id]? = some (some h)

theorem sourceHandle_raw_eq_ok_iff {raw : List Handle} {outputs : List (Option Handle)}
    {slot : Nat} {h : Handle} :
    sourceHandle raw outputs (.raw slot) = .ok h ↔ raw[slot]? = some h := by
  rw [sourceHandle]
  cases raw[slot]? <;> simp

theorem sourceHandle_flow_eq_ok_iff {raw : List Handle} {outputs : List (Option Handle)}
    {id : Nat} {h : Handle} :
    sourceHandle raw outputs (.flow id) = .ok h ↔ outputs[id]? = some (some h) := by
  rw [sourceHandle]
  split
  · next hfound => simp [hfound]
  · next hnone => exact iff_of_false (by simp) fun heq => hnone h heq

/-- A source that has a handle keeps it while more flows are built. -/
theorem sourceHandle_of_extends {raw : List Handle} {outputs outputs' : List (Option Handle)}
    (hmore : Extends outputs' outputs) {s : Source} {h : Handle}
    (hs : sourceHandle raw outputs s = .ok h) : sourceHandle raw outputs' s = .ok h := by
  cases s with
  | raw slot => exact hs
  | flow id =>
    have hfound := sourceHandle_flow_eq_ok_iff.mp hs
    exact sourceHandle_flow_eq_ok_iff.mpr (hmore id h hfound)

theorem BuildForwardCalls.of_extends {f : Flow} {raw : List Handle}
    {outputs outputs' : List (Option Handle)} {alignment : Nat} {forward : ForwardNodes}
    {calls : List Call} (h : BuildForwardCalls f raw outputs alignment forward calls)
    (hmore : Extends outputs' outputs) :
    BuildForwardCalls f raw outputs' alignment forward calls := by
  cases h with
  | intro hsources hfusion hlayers =>
    have hall := Traversal.mapM_eq_ok_iff.mp hsources
    have hkept := hall.imp fun _ _ hs => sourceHandle_of_extends hmore hs
    exact .intro (Traversal.mapM_eq_ok_iff.mpr hkept) hfusion hlayers

theorem ForwardCalls.length_nodes {layers : List Layer} {shapes : List Shape} {start : Handle}
    {nodes : List Handle} {calls : List Call} (h : ForwardCalls layers shapes start nodes calls) :
    nodes.length = layers.length := by
  induction h with
  | nil start => rfl
  | cons hkernel hrest ih => rw [List.length_cons, List.length_cons, ih]

/-- Layers are built by building the first one and then the others. -/
theorem run_appendLayers_cons (shape : Shape) (shapes : List Shape) (current : Handle) (l : Layer)
    (rest : List Layer) (b : β) :
    (appendLayers (shape :: shapes) current).run (l :: rest, b) = (do
      let node ← zoom (fun s : List Layer × β => (s.1.headD l, s.2))
        (fun t s => (t.1 :: s.1.tail, t.2)) (Layer.appendForward shape current)
      let nodes ← zoom (fun s : List Layer × β => (s.1.tail, s.2))
        (fun t s => (s.1.headD l :: t.1, t.2)) (appendLayers shapes node)
      pure (node :: nodes) : Op Failure (List Layer × β) (List Handle)).run (l :: rest, b) := by
  rw [run_bind, run_zoom, Op.run, appendLayers]
  dsimp only [List.headD_cons, List.tail_cons]
  rcases (Layer.appendForward shape current).run (l, b) with ⟨result, ⟨l', u⟩, log⟩
  cases result with
  | error e => rfl
  | ok node =>
    dsimp only
    rw [run_bind, run_zoom]
    dsimp only [List.headD_cons, List.tail_cons]
    rcases (appendLayers shapes node).run (rest, u) with ⟨result, ⟨rest', v⟩, log'⟩
    cases result with
    | error e => rfl
    | ok nodes => simp [Except.map]

/-- However building layers ends, the first layer is as its node leaves it, and the others were not
reached or are as building them leaves them. -/
theorem layers_appendLayers_cons (shape : Shape) (shapes : List Shape) (current : Handle)
    (l : Layer) (rest : List Layer) (b : β) :
    ∃ rest', ((appendLayers (shape :: shapes) current).run (l :: rest, b)).state.1 =
        ((Layer.appendForward shape current).run (l, b)).state.1 :: rest' ∧
      (rest' = rest ∨ ∃ (node : Handle) (u : β),
        rest' = ((appendLayers shapes node).run (rest, u)).state.1) := by
  rw [Op.run, appendLayers]
  dsimp only
  cases ((Layer.appendForward shape current).run (l, b)).result with
  | error e => exact ⟨rest, rfl, .inl rfl⟩
  | ok node => exact ⟨_, rfl, .inr ⟨node, _, rfl⟩⟩

/-- Building a first layer and then the others, taken apart. -/
theorem yields_appendLayers_cons {shape : Shape} {shapes : List Shape} {current : Handle}
    {l : Layer} {rest layers' : List Layer} {b b' : β} {nodes : List Handle}
    (h : (appendLayers (shape :: shapes) current).Yields (l :: rest, b) nodes (layers', b')) :
    ∃ node l' u more rest', (Layer.appendForward shape current).Yields (l, b) node (l', u) ∧
      (appendLayers shapes node).Yields (rest, u) more (rest', b') ∧
      nodes = node :: more ∧ layers' = l' :: rest' := by
  rw [Yields, run_appendLayers_cons, ← Yields] at h
  obtain ⟨node, _, hzoom, h⟩ := yields_bind.mp h
  obtain ⟨⟨l', u⟩, hfirst, rfl⟩ := yields_zoom.mp hzoom
  obtain ⟨more, _, hzoom, hpure⟩ := yields_bind.mp h
  obtain ⟨⟨rest', v⟩, hmore, rfl⟩ := yields_zoom.mp hzoom
  obtain ⟨rfl, heq⟩ := yields_pure.mp hpure
  cases heq
  exact ⟨node, l', u, more, rest', hfirst, hmore, rfl, rfl⟩

/-- Building a first layer and then the others, put together. -/
theorem yields_appendLayers_cons_of {shape : Shape} {shapes : List Shape} {current node : Handle}
    {l l' : Layer} {rest rest' : List Layer} {b u b' : β} {nodes : List Handle}
    (hfirst : (Layer.appendForward shape current).Yields (l, b) node (l', u))
    (hrest : (appendLayers shapes node).Yields (rest, u) nodes (rest', b')) :
    (appendLayers (shape :: shapes) current).Yields (l :: rest, b) (node :: nodes)
      (l' :: rest', b') := by
  rw [Yields, run_appendLayers_cons, ← Yields]
  refine yields_bind.mpr ⟨node, (l' :: rest, u), yields_zoom.mpr ⟨(l', u), hfirst, rfl⟩, ?_⟩
  refine yields_bind.mpr ⟨nodes, (l' :: rest', b'), yields_zoom.mpr ⟨(rest', b'), hrest, rfl⟩, ?_⟩
  exact yields_pure.mpr ⟨rfl, rfl⟩

/-- Building a first layer and then the others fails at the first one, or later. -/
theorem fails_appendLayers_cons {shape : Shape} {shapes : List Shape} {current : Handle}
    {l : Layer} {rest layers' : List Layer} {b b' : β} {e : Failure}
    (h : (appendLayers (shape :: shapes) current).Fails (l :: rest, b) e (layers', b')) :
    (∃ l', (Layer.appendForward shape current).Fails (l, b) e (l', b') ∧ layers' = l' :: rest) ∨
      ∃ node l' u rest', (Layer.appendForward shape current).Yields (l, b) node (l', u) ∧
        (appendLayers shapes node).Fails (rest, u) e (rest', b') ∧ layers' = l' :: rest' := by
  rw [Fails, run_appendLayers_cons, ← Fails] at h
  rcases fails_bind.mp h with hzoom | ⟨node, _, hzoom, h⟩
  · obtain ⟨⟨l', u⟩, hfirst, heq⟩ := fails_zoom.mp hzoom
    cases heq
    exact .inl ⟨l', hfirst, rfl⟩
  obtain ⟨⟨l', u⟩, hfirst, rfl⟩ := yields_zoom.mp hzoom
  rcases fails_bind.mp h with hzoom | ⟨_, _, -, hpure⟩
  · obtain ⟨⟨rest', v⟩, hmore, heq⟩ := fails_zoom.mp hzoom
    cases heq
    exact .inr ⟨node, l', u, rest', hfirst, hmore, rfl⟩
  · exact absurd hpure fails_pure.mp

theorem yields_appendLayers {layers layers' : List Layer} {shapes : List Shape}
    {start : Handle} {nodes : List Handle} {o o' : Observed β}
    (hlength : shapes.length = layers.length)
    (h : (appendLayers shapes start).Yields (layers, o) nodes (layers', o')) :
    layers'.map Layer.bare = layers.map Layer.bare ∧
      ∃ calls, ForwardCalls layers shapes start nodes calls ∧ o'.calls = o.calls ++ calls := by
  induction shapes generalizing layers layers' start nodes o with
  | nil =>
    have hnil : layers = [] := List.eq_nil_of_length_eq_zero hlength.symm
    subst hnil
    obtain ⟨rfl, hstate⟩ := yields_pure.mp h
    cases hstate
    exact ⟨rfl, [], .nil start, (List.append_nil _).symm⟩
  | cons shape shapes ih =>
    cases layers with
    | nil => cases hlength
    | cons l rest =>
      obtain ⟨node, l', u, more, rest', hfirst, hmore, rfl, rfl⟩ := yields_appendLayers_cons h
      obtain ⟨kernel, hkernel, hcall⟩ := Layer.yields_appendForward hfirst
      have hbare := Layer.bare_of_yields_appendForward hfirst
      obtain ⟨hrest, calls, hcalls, happend⟩ := ih (by simpa using hlength) hmore
      refine ⟨?_, _, .cons hkernel hcalls, ?_⟩
      · rw [List.map_cons, List.map_cons, hbare, hrest]
      · rw [happend, hcall, List.append_assoc]
        rfl

theorem yields_appendFusion {f : Flow} {sources : List Handle} {alignment : Nat}
    {fusion : Option FusionNodes} {start : Handle} {o o' : Observed β}
    (h : (f.appendFusion sources alignment).Yields o (fusion, start) o') :
    ∃ calls, FusionCalls f alignment sources fusion start calls ∧
      o'.calls = o.calls ++ calls := by
  unfold appendFusion at h
  split at h
  · obtain ⟨heq, rfl⟩ := yields_pure.mp h
    cases heq
    exact ⟨[], .single _, (List.append_nil _).symm⟩
  next hmany =>
  simp only [yields_bind, yields_ofExcept, yields_pure] at h
  obtain ⟨counts, _, ⟨hcounts, rfl⟩, plan, _, ⟨hplan, rfl⟩, nodes, _, hnodes, heq, rfl⟩ := h
  cases heq
  obtain ⟨hne, hkernel, hcount, hcalls⟩ := FusionNodes.yields_append hnodes
  refine ⟨_, .several ?_ ?_ hkernel hcount, hcalls⟩
  -- One source alone takes the other branch, and no source at all is refused.
  · rcases sources with _ | ⟨first, _ | ⟨second, rest⟩⟩
    · exact absurd rfl hne
    · exact absurd rfl (hmany first)
    · simp
  · exact Traversal.bind_eq_ok_iff.mpr ⟨counts, hcounts, hplan⟩

theorem checkForward_eq_ok {f : Flow} (h : f.checkForward = .ok ()) :
    f.state = .dimensionsInferred ∧ f.shapes.input.isResolved = true := by
  rw [checkForward] at h
  split at h
  · cases h
  next hstate =>
  split at h
  · cases h
  split at h
  · next hresolved => exact ⟨not_not.mp hstate, hresolved⟩
  · cases h

/-- A forward build that succeeds started from inferred shapes, and the input was known. -/
theorem checkForward_of_yields_buildForward {f f' : Flow} {raw : List Handle}
    {outputs : List (Option Handle)} {alignment : Nat} {output : Handle} {b b' : β}
    (h : (buildForward raw outputs alignment).Yields (f, b) output (f', b')) :
    f.state = .dimensionsInferred ∧ f.shapes.input.isResolved = true := by
  replace h := yields_get_bind.mp h
  obtain ⟨_, _, hofExcept, -⟩ := yields_bind.mp h
  exact checkForward_eq_ok (yields_ofExcept.mp hofExcept).1

/-- A forward build leaves the nodes of its requests, and of the layers it changes nothing but
the stores. -/
theorem yields_buildForward {f f' : Flow} {raw : List Handle} {outputs : List (Option Handle)}
    {alignment : Nat} {output : Handle} {o o' : Observed β} (hfits : f.Fits f.shapes)
    (h : (buildForward raw outputs alignment).Yields (f, o) output (f', o')) :
    f'.layers.map Layer.bare = f.layers.map Layer.bare ∧
      ∃ forward calls, BuildForwardCalls f raw outputs alignment forward calls ∧
        f' = { f with layers := f'.layers, state := .forwardBuilt forward } ∧
        output = forward.output ∧ o'.calls = o.calls ++ calls := by
  simp only [buildForward, yields_bind, yields_get, yields_ofExcept, yields_say, yields_modify,
    yields_pure] at h
  obtain ⟨_, _, ⟨rfl, rfl⟩, _, _, ⟨-, rfl⟩, sources, _, ⟨hsources, rfl⟩, ⟨fusion, start⟩, u,
    hzoom, nodes, v, hzoom', _, _, rfl, _, _, rfl, rfl, heq⟩ := h
  -- First the sources are brought together, then the layers follow.
  obtain ⟨o₁, hfusion, rfl⟩ := yields_zoom.mp hzoom
  obtain ⟨⟨layers', o₂⟩, hlayers, rfl⟩ := yields_zoom.mp hzoom'
  cases heq
  obtain ⟨fusionCalls, hfusionCalls, hfirst⟩ := yields_appendFusion hfusion
  obtain ⟨hbare, layerCalls, hlayerCalls, hsecond⟩ :=
    yields_appendLayers hfits.length_layerInputs hlayers
  refine ⟨hbare, _, _, .intro hsources hfusionCalls hlayerCalls, rfl, rfl, ?_⟩
  rw [hsecond, hfirst, List.append_assoc]

/-! ## Backward -/

/-- The requests for the gradients of layers in the order given, each on the gradient before;
`last` is the gradient that the last of them leaves. -/
inductive GradientCalls : List BuiltLayer → (start last : Handle) → List Call → Prop
  | nil (start : Handle) : GradientCalls [] start start []
  | cons {built : BuiltLayer} {rest : List BuiltLayer} {kernel : Kernel}
      {start next last : Handle} {calls : List Call}
      (hkernel : built.layer.kernel built.input = .ok kernel)
      (hrest : GradientCalls rest next last calls) :
      GradientCalls (built :: rest) start last (.gradient built.node kernel start next :: calls)

/-- The requests of a backward build of a flow that starts from the gradient of its output, with
the gradients of its sources. -/
inductive BuildBackwardCalls (f : Flow) (forward : ForwardNodes) (start : Handle) :
    (gradients : List Handle) → List Call → Prop
  | single {last : Handle} {calls : List Call} (hfusion : forward.fusion = none)
      (hlayers : GradientCalls (f.builtLayers forward).reverse start last calls) :
      BuildBackwardCalls f forward start [last] calls
  | several (middle : Handle) {last : Handle} {gradients : List Handle} {calls : List Call}
      {nodes : FusionNodes} (hfusion : forward.fusion = some nodes)
      (hlayers : GradientCalls (f.builtLayers forward).reverse start last calls)
      (hcount : gradients.length = nodes.sourceCount) :
      BuildBackwardCalls f forward start gradients
        (calls ++ [.gradient nodes.contraction nodes.kernel last middle,
          .concatenationGradient nodes.concatenation middle gradients])

theorem yields_appendLayerGradients {built : List BuiltLayer} {start last : Handle}
    {o o' : Observed β} (h : (appendLayerGradients built start).Yields o last o') :
    ∃ calls, GradientCalls built start last calls ∧ o'.calls = o.calls ++ calls := by
  induction built generalizing start o with
  | nil =>
    obtain ⟨rfl, rfl⟩ := yields_pure.mp h
    exact ⟨[], .nil _, (List.append_nil _).symm⟩
  | cons first rest ih =>
    obtain ⟨next, u, hnext, hrest⟩ := yields_bind.mp h
    obtain ⟨kernel, hkernel, hcall⟩ := Layer.yields_appendGradient hnext
    obtain ⟨calls, hcalls, happend⟩ := ih hrest
    refine ⟨_, .cons hkernel hcalls, ?_⟩
    rw [happend, hcall, List.append_assoc]
    rfl

theorem yields_appendGradients {f : Flow} {forward : ForwardNodes} {start : Handle}
    {gradients : List Handle} {o o' : Observed β}
    (h : (f.appendGradients forward start).Yields o gradients o') :
    ∃ calls, BuildBackwardCalls f forward start gradients calls ∧
      o'.calls = o.calls ++ calls := by
  obtain ⟨last, u, hlast, hrest⟩ := yields_bind.mp h
  obtain ⟨calls, hcalls, hfirst⟩ := yields_appendLayerGradients hlast
  cases hfusion : forward.fusion with
  | none =>
    rw [hfusion] at hrest
    obtain ⟨rfl, rfl⟩ := yields_pure.mp hrest
    exact ⟨calls, .single hfusion hcalls, hfirst⟩
  -- Gradients of fused sources come out of the contraction and the concatenation.
  | some nodes =>
    rw [hfusion] at hrest
    obtain ⟨hcount, middle, hsecond⟩ := FusionNodes.yields_appendGradients hrest
    refine ⟨_, .several middle hfusion hcalls hcount, ?_⟩
    rw [hsecond, hfirst, List.append_assoc]

/-- A backward build that succeeds started from a forward build; it changes nothing of the flow
but its stage. -/
theorem yields_buildBackward {f f' : Flow} {start : Handle} {gradients : List Handle}
    {o o' : Observed β} (h : (buildBackward start).Yields (f, o) gradients (f', o')) :
    ∃ forward calls, f.state = .forwardBuilt forward ∧
      BuildBackwardCalls f forward start gradients calls ∧
      f' = { f with state := .backwardBuilt forward gradients } ∧
      o'.calls = o.calls ++ calls := by
  replace h := yields_get_bind.mp h
  dsimp only at h
  split at h
  · next forward hforward =>
    simp only [yields_bind, yields_modify, yields_pure] at h
    obtain ⟨_, u, hzoom, _, _, rfl, rfl, heq⟩ := h
    obtain ⟨inner, hgradients, rfl⟩ := yields_zoom.mp hzoom
    cases heq
    obtain ⟨calls, hcalls, happend⟩ := yields_appendGradients hgradients
    exact ⟨forward, calls, hforward, hcalls, rfl, happend⟩
  · simp at h

end Flow

end LayerFlow
