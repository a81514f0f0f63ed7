/-
LayerFlow.Proofs.Graph.Atomicity

Edits are atomic.  One that is refused leaves the graph as it was; one that is accepted leaves no
flow with a build and no analysis, so nothing that was derived from the old document can be used for
the new one: every build of the whole graph is refused until shapes have been inferred again.

Main statement: `edits_atomic`.
-/
import LayerFlow.Proofs.Graph.History

namespace LayerFlow.Graph

open Op

/-! ## Unbuilt graphs -/

/-- No flow has been built, or inferred, since the last edit. -/
def Unbuilt (g : Graph) : Prop := ∀ f ∈ g.flows, f.state = .unbuilt

theorem Unbuilt.of_worked {g g' : Graph} (h : g.Unbuilt) (hworked : Flowwise Flow.Worked g g') :
    g'.Unbuilt := by
  intro f' hf'
  obtain ⟨id, hid⟩ := List.mem_iff_getElem?.mp hf'
  obtain ⟨f, hf, hkept⟩ := hworked.before hid
  exact hkept.unbuilt (h f (List.mem_of_getElem? hf))

/-- Without an inference an unbuilt graph stays unbuilt, whatever is done with it. -/
theorem Unbuilt.use {g : Graph} (h : g.Unbuilt) {u : Use} (hinfers : ¬ u.Infers) :
    (u.run g).Unbuilt := by
  by_cases hedits : u.Edits
  · cases u with
    | edit e he =>
      rcases Use.edit_cases e he g with ⟨-, hsame⟩ | ⟨-, hunbuilt⟩
      · rw [hsame]
        exact h
      · exact hunbuilt
    | _ => exact hedits.elim
  · exact h.of_worked (u.worked hedits hinfers g)

theorem Unbuilt.after {g : Graph} (h : g.Unbuilt) {uses : List Use}
    (hinfers : ∀ u ∈ uses, ¬ u.Infers) : (g.after uses).Unbuilt := by
  induction uses generalizing g with
  | nil => exact h
  | cons u rest ih =>
    rw [List.forall_mem_cons] at hinfers
    exact ih (h.use hinfers.1) hinfers.2

/-! ## Builds that are refused -/

section

variable {β : Type} {g : Graph}

theorem fails_onFlow {α : Type} {id : Nat} {f : Flow} {x : Op Failure (Flow × β) α} {b : β}
    {t : Flow × β} {e : Failure} (hf : g.flows[id]? = some f) (h : x.Fails (f, b) e t) :
    (onFlow id x).Fails (g, b) e (g.setFlow id t.1, t.2) := by
  obtain ⟨hresult, rfl⟩ := h
  rw [Fails, run_onFlow hf]
  exact ⟨hresult, rfl⟩

/-- The graph once its analysis is known. -/
def verified (g : Graph) : Graph := { g with analysis := some g.references.analysis }

theorem yields_onGraph_ensureVerified (h : g.WellFormed) (b : β) :
    (onGraph ensureVerified : Op Failure (Graph × β) _).Yields (g, b) g.references.analysis
      (g.verified, b) :=
  yields_zoom.mpr ⟨_, h.yields_ensureVerified, rfl⟩

/-- A graph that has flows evaluates one of them first and one of them last. -/
theorem WellFormed.order_ne_nil (h : g.WellFormed) (hne : g.flows ≠ []) :
    g.references.order ≠ [] := by
  obtain ⟨f, rest, hflows⟩ := List.exists_cons_of_ne_nil hne
  have hsize : 0 < g.size := by
    rw [size, hflows]
    exact Nat.succ_pos _
  exact List.ne_nil_of_mem ((mem_order_iff h.sound).mpr hsize)

variable [Backend β]

/-- The first flow to be built forward is refused. -/
theorem Unbuilt.error_buildForwardAll (hunbuilt : g.Unbuilt) (h : g.WellFormed)
    (hne : g.flows ≠ []) (b : β) (raw : List Handle) :
    ((buildForwardAll raw).run (g, b)).result =
      .error (.wrongStage .dimensionsInferred .unbuilt) := by
  obtain ⟨id, rest, horder⟩ := List.exists_cons_of_ne_nil (h.order_ne_nil hne)
  have hid : id < g.size := by
    rw [← mem_order_iff h.sound, horder]
    exact List.mem_cons_self
  obtain ⟨f, hf⟩ := getElem?_of_lt_size hid
  have hstate := hunbuilt f (List.mem_of_getElem? hf)
  have hcheck : f.checkForward = .error (.wrongStage .dimensionsInferred .unbuilt) := by
    rw [Flow.checkForward, hstate]
    rfl
  have hflow : ∀ (outputs : List (Option Handle)) (alignment : Nat),
      (Flow.buildForward raw outputs alignment).Fails (f, b)
        (.wrongStage .dimensionsInferred .unbuilt) (f, b) := fun outputs alignment =>
    fails_get_bind.mpr (fails_bind.mpr (.inl (fails_ofExcept.mpr ⟨hcheck, rfl⟩)))
  have hverified := yields_onGraph_ensureVerified h b
  have hin : (buildForwardIn (β := β) raw g.config.channelAlignment g.references.order
      (List.replicate g.size none)).Fails (g.verified, b)
      (.wrongStage .dimensionsInferred .unbuilt) (g.verified.setFlow id f, b) := by
    rw [horder]
    exact fails_bind.mpr (.inl (fails_onFlow (g := g.verified) hf (hflow _ _)))
  exact (fails_bind.mpr (.inr ⟨_, _, hverified, fails_get_bind.mpr
    (fails_bind.mpr (.inl hin))⟩)).1

/-- The first flow to be built backward is refused. -/
theorem Unbuilt.error_buildBackwardAll (hunbuilt : g.Unbuilt) (h : g.WellFormed)
    (hne : g.flows ≠ []) (b : β) :
    ((buildBackwardAll : Op Failure (Graph × β) _).run (g, b)).result =
      .error (.wrongStage .forwardBuilt .unbuilt) := by
  have hreverse : g.references.order.reverse ≠ [] := by
    rw [ne_eq, List.reverse_eq_nil_iff]
    exact h.order_ne_nil hne
  obtain ⟨id, rest, horder⟩ := List.exists_cons_of_ne_nil hreverse
  have hid : id < g.size := by
    rw [← mem_order_iff h.sound, ← List.mem_reverse, horder]
    exact List.mem_cons_self
  obtain ⟨f, hf⟩ := getElem?_of_lt_size hid
  have hstate := hunbuilt f (List.mem_of_getElem? hf)
  have houtput : f.outputHandle? = none := by
    rw [Flow.outputHandle?, hstate]
    rfl
  have hverified := yields_onGraph_ensureVerified h b
  have hflow : g.verified.flow id = .ok f := flow_eq_ok_iff.mpr hf
  have hin : (buildBackwardIn (β := β) g.references.order.reverse []).Fails (g.verified, b)
      (.wrongStage .forwardBuilt .unbuilt) (g.verified, b) := by
    rw [horder]
    refine fails_get_bind.mpr (fails_bind.mpr (.inr ⟨f, _, yields_ofExcept.mpr ⟨hflow, rfl⟩, ?_⟩))
    rw [houtput, hstate]
    exact fails_fail.mpr ⟨rfl, rfl⟩
  exact (fails_bind.mpr (.inr ⟨_, _, hverified, fails_bind.mpr (.inl hin)⟩)).1

end

/-! ## Edits -/

/-- An edit that is accepted leaves no flow with a build, and no analysis. -/
theorem forgets_of_yields {e : Edit} {g g' : Graph} (h : e.run.Yields g () g') :
    g'.Unbuilt ∧ g'.analysis = none := by
  obtain ⟨rawInputs, -, -, rfl⟩ := Edit.resetAll_of_yields h
  refine ⟨fun f hf => ?_, rfl⟩
  obtain ⟨old, -, rfl⟩ := List.mem_map.mp hf
  rfl

theorem setConfig_cases (config : Config) (g : Graph) :
    (∃ err, (Graph.setConfig config).Fails g err g) ∨
      (Graph.setConfig config).Yields g () { g with config := config } := by
  cases hcheck : config.check with
  | error err => exact .inl ⟨err, fails_bind.mpr (.inl (fails_ofExcept.mpr ⟨hcheck, rfl⟩))⟩
  | ok checked =>
    obtain ⟨-, rfl⟩ := Config.check_eq_ok_iff.mp hcheck
    exact .inr (yields_bind.mpr ⟨checked, g, yields_ofExcept.mpr ⟨hcheck, rfl⟩,
      yields_modify.mpr rfl⟩)

/-- Edits are atomic and discard what was derived.  An edit that is refused leaves the graph as it
was: its flows with their labels, sources, layers, parameters, shapes and builds, its raw inputs,
settings and analysis.  After one that is accepted no flow is built or inferred, none has an output
or gradients, and the analysis is unknown; and as long as nothing is inferred, builds of the whole
graph are refused, on any backend and whatever else is done.  A change of the settings is refused
without effect as well, and otherwise changes the settings alone. -/
theorem edits_atomic {g : Graph} (h : g.Reachable) :
    (∀ (e : Edit) err g', e.run.Fails g err g' → g' = g) ∧
    (∀ (e : Edit) g', e.run.Yields g () g' →
      (∀ f ∈ g'.flows, f.state = .unbuilt ∧ f.outputHandle? = none ∧
        f.state.inputGradients? = none) ∧
      g'.analysis = none ∧
      (e.Reachable → ∀ uses : List Use, (∀ u ∈ uses, ¬ u.Infers) →
        (g'.after uses).flows ≠ [] →
        ∀ {β : Type} [Backend β] (b : β) (raw : List Handle),
          ((buildForwardAll raw).run (g'.after uses, b)).result =
              .error (.wrongStage .dimensionsInferred .unbuilt) ∧
            ((buildBackwardAll : Op Failure (Graph × β) _).run (g'.after uses, b)).result =
              .error (.wrongStage .forwardBuilt .unbuilt))) ∧
    ∀ config, (∀ err g', (Graph.setConfig config).Fails g err g' → g' = g) ∧
      ∀ g', (Graph.setConfig config).Yields g () g' → g' = { g with config := config } := by
  refine ⟨fun e err g' hfails => Edit.eq_of_fails hfails, fun e g' hyields => ?_, fun config => ?_⟩
  · obtain ⟨hunbuilt, hanalysis⟩ := forgets_of_yields hyields
    refine ⟨fun f hf => ?_, hanalysis, fun he uses hinfers hne β _ b raw => ?_⟩
    · have hstate := hunbuilt f hf
      rw [Flow.outputHandle?, hstate]
      exact ⟨rfl, rfl, rfl⟩
    · have hg' : g'.Reachable := hyields.2 ▸ h.step (Edit.step he g)
      have hlater := (hg'.after uses).wellFormed
      have hstill := hunbuilt.after hinfers
      exact ⟨hstill.error_buildForwardAll hlater hne b raw,
        hstill.error_buildBackwardAll hlater hne b⟩
  · rcases setConfig_cases config g with ⟨err, hrefused⟩ | haccepted
    · exact ⟨fun err' g' hfails => hfails.2.symm.trans hrefused.2,
        fun g' hyields => absurd hrefused hyields.not_fails⟩
    · exact ⟨fun err g' hfails => absurd hfails haccepted.not_fails,
        fun g' hyields => (haccepted.unique hyields).2⟩

/-- Of the inferred document no flow is removed that does not exist; once the raw input has another
shape, it is not built before the next inference, even after a flow got one more layer. -/
theorem edits_atomic_diamond :
    let g := (Graph.inferAll.run diamond).state
    let g' := ((Edit.setRawInput 0 ⟨2, 2, 3, 1⟩).run.run g).state
    let uses : List Use := [.work 1 (.pushLayer (.softMax ⟨.softMax⟩)) trivial,
      .setConfig { Config.default with workers := 0 }, .edit (.removeFlow 9) trivial]
    let tape : Tape := ⟨#[.readInput 0], none⟩
    ((Edit.removeFlow 4).run.run g).state = g ∧ g'.analysis = none ∧
      ((buildForwardAll [⟨0⟩]).run (g'.after uses, tape)).result =
        .error (.wrongStage .dimensionsInferred .unbuilt) ∧
      ((Graph.setConfig { g.config with maxPasses := 3 }).run g).state =
        { g with config := { g.config with maxPasses := 3 } } := by
  intro g g' uses tape
  obtain ⟨hrefused, haccepted, hconfig⟩ := edits_atomic (reachable_diamond.step (.inferAll diamond))
  obtain ⟨-, hanalysis, hbuilds⟩ := haccepted (.setRawInput 0 ⟨2, 2, 3, 1⟩) g' ⟨rfl, rfl⟩
  have hinfers : ∀ u ∈ uses, ¬ u.Infers := by simp [uses, Use.Infers]
  have hchecked : Config.check { g.config with maxPasses := 3 } =
      .ok { g.config with maxPasses := 3 } :=
    Config.check_eq_ok_iff.mpr ⟨⟨by decide, by decide, by decide⟩, rfl⟩
  have hset : (Graph.setConfig { g.config with maxPasses := 3 }).Yields g () _ :=
    yields_bind.mpr ⟨_, g, yields_ofExcept.mpr ⟨hchecked, rfl⟩, rfl, rfl⟩
  refine ⟨hrefused (.removeFlow 4) (.flowNotFound 4) _ ⟨rfl, rfl⟩, hanalysis, ?_, ?_⟩
  · exact (hbuilds trivial uses hinfers (by decide) tape [⟨0⟩]).1
  · exact (hconfig { g.config with maxPasses := 3 }).2 _ ⟨hset.1, rfl⟩

end LayerFlow.Graph
