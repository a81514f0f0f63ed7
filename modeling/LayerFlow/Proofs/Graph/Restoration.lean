/-
LayerFlow.Proofs.Graph.Restoration

What a graph knows that was made of a record.  A text holds the document alone, so the graph of a
text has to be inferred before it can be built.  A record that stays in memory holds the flows as
they are: the graph made of it takes over their shapes and builds, even if the raw inputs were
replaced in between, and it can be built with the shapes of the graph that was recorded.

Main statement: `restored_flows`.
-/
import LayerFlow.Proofs.Graph.Atomicity
import LayerFlow.Proofs.Graph.Persistence

namespace LayerFlow.Graph

open Op

/-- Nothing is known of a graph but its document. -/
def Underived (g : Graph) : Prop := ∀ f ∈ g.flows, f = .fresh f.label f.inputs f.layers

/-- Builds of a whole graph are refused, on any backend and whatever is done with the graph, as long
as nothing is inferred. -/
def AwaitsInference (g : Graph) : Prop :=
  ∀ uses : List Use, (∀ u ∈ uses, ¬ u.Infers) → (g.after uses).flows ≠ [] →
    ∀ {β : Type} [Backend β] (b : β) (raw : List Handle),
      ((buildForwardAll raw).run (g.after uses, b)).result =
          .error (.wrongStage .dimensionsInferred .unbuilt) ∧
        ((buildBackwardAll : Op Failure (Graph × β) _).run (g.after uses, b)).result =
          .error (.wrongStage .forwardBuilt .unbuilt)

variable {g h : Graph} {config : Config}

theorem Underived.unbuilt (hg : g.Underived) : g.Unbuilt := by
  intro f hf
  rw [hg f hf]
  rfl

theorem Unbuilt.awaitsInference (hg : g.Unbuilt) (hreach : g.Reachable) : g.AwaitsInference := by
  intro uses hinfers hne β _ b raw
  have hlater := (hreach.after uses).wellFormed
  have hstill := hg.after hinfers
  exact ⟨hstill.error_buildForwardAll hlater hne b raw, hstill.error_buildBackwardAll hlater hne b⟩

/-- The graph of a text. -/
theorem underived_ofText {text : String} (hread : ofText text config = .ok h) :
    h.Underived ∧ h.analysis = none := by
  obtain ⟨r, hrecord, hfresh⟩ := exists_record_of_ofText hread
  obtain rfl := eq_of_ofRecord hrecord
  refine ⟨fun f hf => ?_, rfl⟩
  obtain ⟨label, inputs, layers, rfl⟩ := hfresh f hf
  rfl

/-- A forward build of a graph starts from the shapes of an inference, and keeps them. -/
theorem WellFormed.inferred_of_yields {β : Type} [Backend β] (hg : g.WellFormed) {b b' : β}
    {raw outputs : List Handle} {g' : Graph}
    (hrun : (buildForwardAll raw).Yields (g, b) outputs (g', b')) :
    (∀ f ∈ g.flows, f.state = .dimensionsInferred) ∧
      g'.flows.map Flow.shapes = g.flows.map Flow.shapes := by
  have hworked : Flowwise Flow.Worked g g' := by
    have hkept : FlowwiseBeside Flow.Worked g ((buildForwardAll raw).run (g, b)).state :=
      flowwise_buildForwardAll Flow.worked_buildForward raw _ (.refl _)
    rwa [hrun.2] at hkept
  refine ⟨fun f hf => ?_, (hworked.map_eq fun _ _ hkept => hkept.shapes.symm).symm⟩
  obtain ⟨id, hid⟩ := List.mem_iff_getElem?.mp hf
  obtain ⟨_, _, _, _, _, hbuild, -⟩ := hg.built_of_yields hrun hid
  exact (Flow.checkForward_of_yields_buildForward hbuild).1

/-- A graph that is made of the record of another one has its flows as they are, with the shapes and
builds that the other one had, whatever raw inputs the record was given; if it can be built forward,
this is because the other one was inferred, and it is built with the shapes of that inference.  So it
is without any of them, and has to be inferred first, if the other one was without them.  A graph
that is read from a text is always without them. -/
theorem restored_flows (hg : g.Reachable) (rawInputs : List Shape) (config : Config) :
    (∀ h, ofRecord { g.record with rawInputs := rawInputs } config = .ok h →
      h = ⟨g.flows, rawInputs, config, none⟩ ∧ (h.Underived ↔ g.Underived) ∧
      (g.Unbuilt → h.AwaitsInference) ∧
      ∀ {β : Type} [Backend β] (b b' : β) (raw outputs : List Handle) (h' : Graph),
        (buildForwardAll raw).Yields (h, b) outputs (h', b') →
          (∀ f ∈ g.flows, f.state = .dimensionsInferred) ∧
            h'.flows.map Flow.shapes = g.flows.map Flow.shapes) ∧
    ∀ text h, ofText text config = .ok h →
      h.Underived ∧ h.analysis = none ∧ h.AwaitsInference := by
  constructor
  · intro h hrecord
    have hreach : h.Reachable := .ofRecord hg.wellFormed.flows hrecord
    obtain rfl := eq_of_ofRecord hrecord
    exact ⟨rfl, Iff.rfl, fun hunbuilt => Unbuilt.awaitsInference hunbuilt hreach,
      fun b b' raw outputs h' hrun => hreach.wellFormed.inferred_of_yields hrun⟩
  · intro text h hread
    obtain ⟨hunderived, hanalysis⟩ := underived_ofText hread
    exact ⟨hunderived, hanalysis, hunderived.unbuilt.awaitsInference (.ofText hread)⟩

/-! ## A record of an inferred flow -/

/-- A document with one flow once it is inferred. -/
def normedInferred : Graph := (inferAll.run normed).state

theorem reachable_normedInferred : normedInferred.Reachable :=
  reachable_normed.step (.inferAll normed)

/-- The graph that is made of its record with another raw input. -/
def normedRestored : Graph := ⟨normedInferred.flows, [⟨2, 2, 3, 1⟩], .default, none⟩

theorem ofRecord_normedInferred :
    ofRecord { normedInferred.record with rawInputs := [⟨2, 2, 3, 1⟩] } .default =
      .ok normedRestored := by
  have hsound : Sound 1 normedInferred.flows := reachable_normedInferred.wellFormed.sound
  show (checkStructure 1 normedInferred.flows >>= fun _ => _) = _
  rw [checkStructure_eq_ok_iff_sound.mpr hsound]
  rfl

theorem reachable_normedRestored : normedRestored.Reachable :=
  .ofRecord reachable_normedInferred.wellFormed.flows ofRecord_normedInferred

/-- It is built without an inference, for the raw input that it does not have. -/
theorem yields_normedRestored :
    (buildForwardAll [⟨0⟩]).Yields (normedRestored, diamondTape) [⟨1⟩]
      ((buildForwardAll [⟨0⟩]).run (normedRestored, diamondTape)).state := by
  refine ⟨?_, rfl⟩
  have hverified := yields_onGraph_ensureVerified reachable_normedRestored.wellFormed diamondTape
  rw [buildForwardAll, (hverified.run_bind _).1]
  rfl

/-- A graph that is made of a record need not be without shapes and builds, and need not be inferred
before it can be built. -/
theorem ofRecord_not_underived :
    ¬ ∀ (g : Graph) (rawInputs : List Shape) (config : Config) (h : Graph), g.Reachable →
      ofRecord { g.record with rawInputs := rawInputs } config = .ok h →
      h.Underived ∧ (h.flows ≠ [] → ∀ (t : Tape) (raw : List Handle),
        ∃ e, ((buildForwardAll raw).run (h, t)).result = .error e) := by
  intro hclaim
  obtain ⟨e, herror⟩ := (hclaim normedInferred [⟨2, 2, 3, 1⟩] .default normedRestored
    reachable_normedInferred ofRecord_normedInferred).2 (by decide) diamondTape [⟨0⟩]
  rw [yields_normedRestored.1] at herror
  cases herror

/-- The kernel is built for the raw input of the graph that was recorded; the text of the same graph
has to be inferred first. -/
theorem restored_flows_normed :
    ((buildForwardAll [⟨0⟩]).run (normedRestored, diamondTape)).state.1.flows.map Flow.shapes =
        [⟨[⟨4, 4, 3, 1⟩], [⟨4, 4, 3, 1⟩], ⟨4, 4, 3, 1⟩, ⟨4, 4, 3, 1⟩⟩] ∧
      normedRestored.rawInputs = [⟨2, 2, 3, 1⟩] ∧
      ∃ h, ofText normedInferred.exportText .default = .ok h ∧ h.flows = normed.flows ∧
        h.AwaitsInference := by
  obtain ⟨hrecord, htext⟩ := restored_flows reachable_normedInferred [⟨2, 2, 3, 1⟩] .default
  obtain ⟨-, -, -, hbuild⟩ := hrecord normedRestored ofRecord_normedInferred
  have hread : ofText normedInferred.exportText .default = .ok (normedInferred.loaded .default) :=
    ofText_of_finite reachable_normedInferred.wellFormed ⟨by decide +kernel, by decide +kernel⟩
      (show ∀ x ∈ normedInferred.numbers, _ by decide +kernel) (by decide +kernel)
      ⟨by decide, by decide, by decide⟩
  refine ⟨(hbuild diamondTape _ [⟨0⟩] [⟨1⟩] _ yields_normedRestored).2, rfl, _, hread, rfl, ?_⟩
  exact (htext _ _ hread).2.2

end LayerFlow.Graph
