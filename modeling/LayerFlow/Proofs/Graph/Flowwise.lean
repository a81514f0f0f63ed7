/-
LayerFlow.Proofs.Graph.Flowwise

Builds and inferences of a whole graph work on its flows one by one.  What every piece of such work
does to a flow, the whole does to all of them, whether it succeeds or fails half-way.

Main statements: `flowwise_buildForwardAll`, `flowwise_buildBackwardAll`, `flowwise_inferAll` and
`flowwise_buildAll`.
-/
import LayerFlow.Proofs.Graph.Settling
import LayerFlow.Proofs.Graph.Visits

namespace LayerFlow.Graph

open Op

/-- Every flow of a graph became one that stands in a relation to it, over the same raw inputs. -/
structure Flowwise (R : Flow → Flow → Prop) (g g' : Graph) : Prop where
  rawInputs : g'.rawInputs = g.rawInputs
  size : g'.size = g.size
  flows : ∀ {id : Nat} {f : Flow}, g.flows[id]? = some f → ∃ f', g'.flows[id]? = some f' ∧ R f f'

section

variable {R : Flow → Flow → Prop} {g g' g'' : Graph}

/-- Every flow that is left stood there before. -/
theorem Flowwise.before (h : Flowwise R g g') {id : Nat} {f' : Flow}
    (hf' : g'.flows[id]? = some f') : ∃ f, g.flows[id]? = some f ∧ R f f' := by
  have hid : id < g.size := by
    rw [← h.size]
    exact (List.getElem?_eq_some_iff.mp hf').1
  obtain ⟨f, hf⟩ := getElem?_of_lt_size hid
  obtain ⟨found, hfound, hR⟩ := h.flows hf
  rw [hf'] at hfound
  cases hfound
  exact ⟨f, hf, hR⟩

theorem Flowwise.trans [IsTrans Flow R] (h : Flowwise R g g') (h' : Flowwise R g' g'') :
    Flowwise R g g'' := by
  refine ⟨h'.rawInputs.trans h.rawInputs, h'.size.trans h.size, fun hf => ?_⟩
  obtain ⟨mid, hmid, hfirst⟩ := h.flows hf
  obtain ⟨f', hf', hsecond⟩ := h'.flows hmid
  exact ⟨f', hf', IsTrans.trans _ _ _ hfirst hsecond⟩

/-- Replacing a flow by one that it may become leaves the others. -/
theorem Flowwise.setFlow [IsPreorder Flow R] (h : Flowwise R g g') {id : Nat} {f f' : Flow}
    (hf : g'.flows[id]? = some f) (hR : R f f') : Flowwise R g (g'.setFlow id f') := by
  refine ⟨h.rawInputs, (size_setFlow g' id f').trans h.size, fun {other old} hold => ?_⟩
  obtain ⟨mid, hmid, hfirst⟩ := h.flows hold
  show ∃ found, (g'.flows.set id f')[other]? = some found ∧ R old found
  by_cases hid : id = other
  · subst hid
    obtain rfl := Option.some.inj (hmid.symm.trans hf)
    refine ⟨f', ?_, IsTrans.trans _ _ _ hfirst hR⟩
    rw [List.getElem?_set_self (List.getElem?_eq_some_iff.mp hf).1]
  · refine ⟨mid, ?_, hfirst⟩
    rw [List.getElem?_set_ne hid, hmid]

theorem Flowwise.refl [IsPreorder Flow R] (g : Graph) : Flowwise R g g :=
  ⟨rfl, rfl, fun {_ f} hf => ⟨f, hf, Std.Refl.refl f⟩⟩

theorem Flowwise.forall₂ (h : Flowwise R g g') : List.Forall₂ R g.flows g'.flows := by
  refine List.forall₂_iff_get.mpr ⟨h.size.symm, fun id hid hid' => ?_⟩
  obtain ⟨f', hf', hR⟩ := h.flows (List.getElem?_eq_getElem hid)
  rw [List.getElem?_eq_getElem hid', Option.some.injEq] at hf'
  rwa [List.get_eq_getElem, List.get_eq_getElem, hf']

/-- What each flow keeps the list of flows keeps. -/
theorem Flowwise.map_eq {α : Type} {view : Flow → α} (h : Flowwise R g g')
    (hview : ∀ f f', R f f' → view f = view f') : g.flows.map view = g'.flows.map view := by
  rw [← List.forall₂_eq_eq_eq, List.forall₂_map_left_iff, List.forall₂_map_right_iff]
  exact h.forall₂.imp hview

/-- The analysis does not matter. -/
theorem Flowwise.withAnalysis (h : Flowwise R g g') (analysis : Option Analysis) :
    Flowwise R g { g' with analysis := analysis } :=
  ⟨h.rawInputs, h.size, h.flows⟩

end

/-! ## Builds -/

section

variable {R : Flow → Flow → Prop} {β : Type} {start : Graph}

/-- The graph next to a backend came out of another graph, flow by flow. -/
def FlowwiseBeside (R : Flow → Flow → Prop) (start : Graph) (s : Graph × β) : Prop :=
  Flowwise R start s.1

theorem flowwise_verify : Preserves (Flowwise R start) Graph.verify := by
  refine preserves_get_bind fun g h => ?_
  refine preserves_ofExcept_bind (fun _ _ => ?_) g h
  refine preserves_bind (preserves_say _ _) fun _ => ?_
  exact preserves_bind (preserves_set (h.withAnalysis _)) fun _ => preserves_pure _

theorem flowwise_ensureVerified : Preserves (Flowwise R start) ensureVerified := by
  refine preserves_get_bind fun g h => ?_
  split
  · exact h
  · exact flowwise_verify g h

theorem flowwise_onGraph {ε α : Type} {x : Op ε Graph α} (h : Preserves (Flowwise R start) x) :
    Preserves (FlowwiseBeside R start) (onGraph x : Op ε (Graph × β) α) :=
  fun s hs => h s.1 hs

theorem flowwise_onBackend {ε α : Type} (x : Op ε β α) :
    Preserves (FlowwiseBeside R start) (onBackend x) :=
  fun _ hs => hs

variable [IsPreorder Flow R]

theorem flowwise_onFlow {α : Type} (id : Nat) {x : Op Failure (Flow × β) α}
    (hx : ∀ f b, R f (x.run (f, b)).state.1) :
    Preserves (FlowwiseBeside R start) (onFlow id x) := by
  rintro ⟨g, b⟩ h
  cases hflow : g.flow id with
  | error e =>
    simp only [onFlow, run_bind, run_get, run_ofExcept, hflow]
    exact h
  | ok f =>
    have hf := flow_eq_ok_iff.mp hflow
    have hgraph : Flowwise R start g := h
    rw [run_onFlow hf]
    exact hgraph.setFlow hf (hx f b)

variable [Backend β]

/-- What a forward build of a flow does to it, wherever and however it ends. -/
def Forwards (R : Flow → Flow → Prop) (β : Type) [Backend β] : Prop :=
  ∀ (f : Flow) (b : β) (raw : List Handle) (outputs : List (Option Handle)) (alignment : Nat),
    R f ((Flow.buildForward raw outputs alignment).run (f, b)).state.1

/-- What a backward build of a flow does to it. -/
def Backwards (R : Flow → Flow → Prop) (β : Type) [Backend β] : Prop :=
  ∀ (f : Flow) (b : β) (outputGradient : Handle),
    R f ((Flow.buildBackward outputGradient).run (f, b)).state.1

theorem flowwise_buildForwardIn (hbuild : Forwards R β) (raw : List Handle) (alignment : Nat)
    (ids : List Nat) (outputs : List (Option Handle)) : Preserves (FlowwiseBeside R start)
      (buildForwardIn raw alignment ids outputs : Op Failure (Graph × β) _) := by
  induction ids generalizing outputs with
  | nil => exact preserves_pure _
  | cons id rest ih =>
    refine preserves_bind (flowwise_onFlow id fun f b => ?_) fun output => ih _
    exact hbuild f b raw outputs alignment

theorem flowwise_buildForwardAll (hbuild : Forwards R β) (raw : List Handle) :
    Preserves (FlowwiseBeside R start)
      (Graph.buildForwardAll raw : Op Failure (Graph × β) _) := by
  refine preserves_bind (flowwise_onGraph flowwise_ensureVerified) fun analysis => ?_
  refine preserves_get_bind fun s h => ?_
  exact preserves_bind (flowwise_buildForwardIn hbuild raw _ _ _)
    (fun outputs => preserves_ofExcept _) s h

theorem flowwise_buildBackwardIn (hbuild : Backwards R β) (ids : List Nat)
    (handed : List (Source × Handle)) : Preserves (FlowwiseBeside R start)
      (buildBackwardIn ids handed : Op Failure (Graph × β) _) := by
  induction ids generalizing handed with
  | nil => exact preserves_pure _
  | cons id rest ih =>
    refine preserves_get_bind fun s h => ?_
    refine preserves_ofExcept_bind (fun f _ => ?_) s h
    split
    · exact preserves_fail _
    · refine preserves_bind (flowwise_onBackend _) fun entering => ?_
      exact preserves_bind (flowwise_onFlow id fun f b => hbuild f b entering) fun gradients => ih _

theorem flowwise_buildBackwardAll (hbuild : Backwards R β) :
    Preserves (FlowwiseBeside R start)
      (Graph.buildBackwardAll : Op Failure (Graph × β) _) := by
  refine preserves_bind (flowwise_onGraph flowwise_ensureVerified) fun analysis => ?_
  refine preserves_bind (flowwise_buildBackwardIn hbuild _ []) fun handed => ?_
  refine preserves_get_bind fun s h => ?_
  exact flowwise_onBackend _ s h

end

/-! ## Forward builds that succeed -/

section

variable {β : Type} [Backend β]

/-- A walk builds each of its flows once, and leaves the others as they were. -/
theorem built_of_yields_buildForwardIn {raw : List Handle} {alignment : Nat} {ids : List Nat}
    {outputs outputs' : List (Option Handle)} {g g' : Graph} {b b' : β} (honce : ids.Nodup)
    (h : (buildForwardIn raw alignment ids outputs).Yields (g, b) outputs' (g', b')) {id : Nat}
    {f : Flow} (hf : g.flows[id]? = some f) : (id ∉ ids → g'.flows[id]? = some f) ∧
      (id ∈ ids → ∃ (found : List (Option Handle)) (u v : β) (output : Handle) (f' : Flow),
        (Flow.buildForward raw found alignment).Yields (f, u) output (f', v) ∧
        g'.flows[id]? = some f') := by
  induction ids generalizing outputs g b f with
  | nil =>
    obtain ⟨-, heq⟩ := yields_pure.mp h
    cases heq
    exact ⟨fun _ => hf, fun hid => absurd hid List.not_mem_nil⟩
  | cons first rest ih =>
    obtain ⟨hnew, honce⟩ := List.nodup_cons.mp honce
    obtain ⟨output, ⟨g₁, b₁⟩, hfirst, hrest⟩ := yields_bind.mp h
    obtain ⟨f₁, f₁', hf₁, hbuild, rfl⟩ := yields_onFlow hfirst
    by_cases hid : first = id
    · subst hid
      obtain rfl := Option.some.inj (hf.symm.trans hf₁)
      have hset : (g.setFlow first f₁').flows[first]? = some f₁' :=
        List.getElem?_set_self (List.getElem?_eq_some_iff.mp hf).1
      -- The flow is not built again.
      have hkept := (ih honce hrest hset).1 hnew
      exact ⟨fun hnot => absurd List.mem_cons_self hnot,
        fun _ => ⟨outputs, b, b₁, output, f₁', hbuild, hkept⟩⟩
    · have hother : (g.setFlow first f₁').flows[id]? = some f :=
        (List.getElem?_set_ne hid).trans hf
      obtain ⟨hkept, hbuilt⟩ := ih honce hrest hother
      exact ⟨fun hnot => hkept fun hmem => hnot (List.mem_cons_of_mem _ hmem),
        fun hmem => hbuilt ((List.mem_cons.mp hmem).resolve_left (Ne.symm hid))⟩

/-- A forward build of a whole graph builds every flow once. -/
theorem WellFormed.built_of_yields {g g' : Graph} (h : g.WellFormed) {b b' : β}
    {raw outputs : List Handle} (hrun : (buildForwardAll raw).Yields (g, b) outputs (g', b'))
    {id : Nat} {f : Flow} (hf : g.flows[id]? = some f) :
    ∃ (found : List (Option Handle)) (u v : β) (output : Handle) (f' : Flow),
      (Flow.buildForward raw found g.config.channelAlignment).Yields (f, u) output (f', v) ∧
      g'.flows[id]? = some f' := by
  obtain ⟨analysis, _, hzoom, hbuilds⟩ := yields_bind.mp hrun
  obtain ⟨g₁, hverify, rfl⟩ := yields_zoom.mp hzoom
  obtain ⟨rfl, rfl⟩ := h.yields_ensureVerified.unique hverify
  obtain ⟨table, ⟨g₂, b₂⟩, hwalk, hcomplete⟩ := yields_bind.mp (yields_get_bind.mp hbuilds)
  obtain ⟨-, heq⟩ := yields_ofExcept.mp hcomplete
  cases heq
  have hid : id ∈ g.references.order :=
    (mem_order_iff h.sound).mpr (List.getElem?_eq_some_iff.mp hf).1
  exact (built_of_yields_buildForwardIn (References.order_nodup g.references) hwalk hf).2 hid

end

/-! ## Inferences -/

section

variable {R : Flow → Flow → Prop} {g : Graph}

/-- An inference leaves a flow without shapes or with those that the document gives it. -/
theorem flowwise_inferAll (h : g.Inferable) (hclear : ∀ f, R f f.clear)
    (hshapes : ∀ f shapes, R f (f.withShapes shapes)) :
    Flowwise R g (Graph.inferAll.run g).state := by
  rw [h.run_inferAll.2]
  refine ⟨rfl, (sameDocument_passed g).length, fun {id f} hf => ?_⟩
  rcases flow_passed_or hf with hpassed | ⟨shapes, -, hpassed⟩
  · exact ⟨_, hpassed, hclear f⟩
  · exact ⟨_, hpassed, hshapes f shapes⟩

/-- What a complete build does after its inference. -/
theorem flowwise_inferred_buildAll [IsPreorder Flow R] {β : Type} [Backend β]
    (hforward : Forwards R β) (hbackward : Backwards R β) (g : Graph) (b : β) (raw : List Handle) :
    Flowwise R (inferAll.run g).state ((Graph.buildAll raw).run (g, b)).state.1 := by
  refine run_bind_of_preserves (P := FlowwiseBeside R (inferAll.run g).state) (s := (g, b))
    (Flowwise.refl (inferAll.run g).state) fun _ => ?_
  refine preserves_bind (flowwise_buildForwardAll hforward raw) fun outputs => ?_
  refine preserves_bind (flowwise_buildBackwardAll hbackward) fun gradients => ?_
  refine preserves_get_bind fun s h => ?_
  exact preserves_bind (preserves_say _ _) (fun _ => preserves_pure _) s h

theorem flowwise_buildAll [IsPreorder Flow R] {β : Type} [Backend β] (h : g.Inferable)
    (hclear : ∀ f, R f f.clear) (hshapes : ∀ f shapes, R f (f.withShapes shapes))
    (hforward : Forwards R β) (hbackward : Backwards R β) (b : β) (raw : List Handle) :
    Flowwise R g ((Graph.buildAll raw).run (g, b)).state.1 :=
  (flowwise_inferAll h hclear hshapes).trans
    (flowwise_inferred_buildAll hforward hbackward g b raw)

end

end LayerFlow.Graph
