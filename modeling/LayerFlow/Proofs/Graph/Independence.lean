/-
LayerFlow.Proofs.Graph.Independence

A complete build depends on the document only.  Two graphs may hold whatever their histories left
behind; an inference finds the shapes of the document in both, or fails in both alike, and after
it they differ in the contents of parameter stores at most.  The tape does not look at these when
it is asked for nodes, so what is built from there on is the same.

Main statement: `buildAll_dependsOnDocument`.
-/
import LayerFlow.Proofs.Graph.Recording

namespace LayerFlow

open Op Traversal

/-! ## The tape and the stores -/

/-- Layers that differ in the contents of their stores at most. -/
def Layer.StoresAside (l l' : Layer) : Prop := l.bare = l'.bare

namespace Tape

/-- A tape answers as it answers. -/
theorem alike_eq : Backend.Alike (Eq : Tape → Tape → Prop) where
  appendForward _ _ _ := by
    rintro s s' ⟨heq, hstore⟩
    obtain rfl : s = s' := Prod.ext heq hstore
    exact ⟨rfl, rfl, rfl⟩
  appendGradient _ _ _ := related_refl _
  appendConcatenation _ := related_refl _
  appendConcatenationGradient _ _ := related_refl _
  appendOutputGradient _ := related_refl _
  appendAccumulation _ := related_refl _

/-- What is on the tape after a forward kernel does not depend on the store that comes along. -/
theorem related_appendForward (kernel : Kernel) (padding : PaddingPolicy) (input : Handle) :
    Related (fun s s' : Tape × Option ParamStore => s.1 = s'.1)
      (appendForward kernel padding input) (appendForward kernel padding input) := by
  have hzoom : ∀ {α : Type} (x : Op BackendFault Tape α),
      Related (fun s s' : Tape × Option ParamStore => s.1 = s'.1)
        (zoom Prod.fst (fun t s => (t, s.2)) x) (zoom Prod.fst (fun t s => (t, s.2)) x) :=
    fun x => related_zoom (related_refl x) (fun _ _ hst => hst) fun _ _ _ _ huv _ => huv
  refine related_bind (hzoom _) fun _ => related_get_bind ?_
  rintro ⟨t, store⟩ ⟨_, store'⟩ ⟨⟩
  dsimp only
  split
  · exact ⟨rfl, rfl⟩
  -- Either store may be filled first.
  · split <;> split <;> exact ⟨rfl, rfl⟩

end Tape

theorem Layer.padding_eq_of_bare {l l' : Layer} (h : l.bare = l'.bare) :
    l.padding = l'.padding := by
  have hbare : ∀ l : Layer, l.bare.padding = l.padding := fun l => by cases l <;> rfl
  rw [← hbare l, h, hbare]

theorem Tape.alike_storesAside : Layer.Alike Layer.StoresAside (Eq : Tape → Tape → Prop) where
  bare h := h
  requestForward := by
    rintro kernel shape input ⟨l, t⟩ ⟨l', _⟩ ⟨hl, ⟨⟩⟩
    obtain ⟨hresult, hstate⟩ :=
      related_mapError (f := Failure.backend) (related_appendForward kernel l.padding input)
        (t, l.prepareStore shape) (t, l'.prepareStore shape) rfl
    have hpadding := Layer.padding_eq_of_bare hl
    rw [hpadding] at hresult hstate
    refine ⟨?_, ?_, ?_⟩
    · show ((mapError _ (appendForward kernel l.padding input)).run _).result = _
      rw [hpadding]
      exact hresult
    · show Layer.bare (l.withStore _) = Layer.bare (l'.withStore _)
      rw [Layer.bare_withStore, Layer.bare_withStore]
      exact hl
    · show ((mapError _ (appendForward kernel l.padding input)).run _).state.1 = _
      rw [hpadding]
      exact hstate

/-! ## Documents without their stores -/

/-- What was written of a flow: its label, sources and layers, without the contents of stores. -/
def Flow.written (f : Flow) : Flow := .fresh f.label f.inputs (f.layers.map Layer.bare)

theorem Flow.written_eq_iff {f f' : Flow} : f.written = f'.written ↔
    f.label = f'.label ∧ f.inputs = f'.inputs ∧
      f.layers.map Layer.bare = f'.layers.map Layer.bare := by
  simp [written, fresh]

/-- What the document gives a flow does not depend on the contents of stores. -/
theorem Flow.denote_eq_of_written {f f' : Flow} (h : f.written = f'.written)
    (shapeOf : Resolver) : f.denote shapeOf = f'.denote shapeOf := by
  obtain ⟨hlabel, hinputs, hlayers⟩ := written_eq_iff.mp h
  have hshapes : ∀ sources, shapesFrom f.layers sources = shapesFrom f'.layers sources := by
    intro sources
    simp only [shapesFrom, chain_eq_of_bare hlayers]
  simp only [denote, hlabel, hinputs, hshapes]

namespace Graph

/-- What the document gives its flows does not depend on the contents of stores. -/
theorem eval_of_written {g g' : Graph} (hraw : g.rawInputs = g'.rawInputs)
    (hflows : g.flows.map Flow.written = g'.flows.map Flow.written) (id : Nat) :
    g.eval id = g'.eval id := by
  have hsize : g.size = g'.size := by
    have hlength := congrArg List.length hflows
    rwa [List.length_map, List.length_map] at hlength
  rw [Graph.eval, Graph.eval, hsize]
  refine evalWithin_congr hraw (fun other shapeOf => ?_) g'.size id
  have hother := congrArg (fun flows => flows[other]?) hflows
  simp only [List.getElem?_map] at hother
  cases hf : g'.flows[other]? with
  | none =>
    rw [hf] at hother
    rw [Option.map_eq_none_iff.mp hother]
  | some f =>
    rw [hf] at hother
    obtain ⟨f', hf', hwritten⟩ := Option.map_eq_some_iff.mp hother
    rw [hf', Option.map_some, Option.map_some, Flow.denote_eq_of_written hwritten]

/-- Graphs with the same settings and the same document, up to the contents of stores. -/
structure WrittenAlike (g g' : Graph) : Prop where
  rawInputs : g.rawInputs = g'.rawInputs
  config : g.config = g'.config
  flows : g.flows.map Flow.written = g'.flows.map Flow.written

namespace WrittenAlike

variable {g g' : Graph}

theorem size (h : WrittenAlike g g') : g.size = g'.size := by
  have hlength := congrArg List.length h.flows
  rwa [List.length_map, List.length_map] at hlength

theorem inputs (h : WrittenAlike g g') : g.flows.map Flow.inputs = g'.flows.map Flow.inputs := by
  have hinputs := congrArg (List.map Flow.inputs) h.flows
  rw [List.map_map, List.map_map] at hinputs
  exact hinputs

theorem written (h : WrittenAlike g g') {id : Nat} {f f' : Flow} (hf : g.flows[id]? = some f)
    (hf' : g'.flows[id]? = some f') : f.written = f'.written := by
  have hid := congrArg (fun flows => flows[id]?) h.flows
  simp only [List.getElem?_map, hf, hf', Option.map_some, Option.some.injEq] at hid
  exact hid

theorem eval (h : WrittenAlike g g') (id : Nat) : g.eval id = g'.eval id :=
  eval_of_written h.rawInputs h.flows id

/-- Inferences of the two graphs stop at the same failure, if they stop. -/
theorem passFailure? (h : WrittenAlike g g') : g.passFailure? = g'.passFailure? := by
  have heval : g.eval = g'.eval := funext h.eval
  simp only [Graph.passFailure?, groupFailure?, h.config, heval,
    references_eq_of_inputs h.inputs.symm]

end WrittenAlike

/-! ## After an inference -/

/-- Settled graphs of the same document hold equal flows, up to the contents of stores. -/
theorem WrittenAlike.like {g g' u u' : Graph} (h : WrittenAlike g g') (hu : Settled g u)
    (hu' : Settled g' u') (hconfig : u.config = u'.config) (hanalysis : u.analysis = u'.analysis) :
    Like Layer.StoresAside u u' := by
  have hlength : u.flows.length = u'.flows.length := by
    rw [hu.1.length, hu'.1.length]
    exact h.size
  refine ⟨List.forall₂_iff_get.mpr ⟨hlength, fun id hid hid' => ?_⟩, ?_, hconfig, hanalysis⟩
  · obtain ⟨_, hstored, f, shapes, hf, heval, rfl⟩ := hu.2 id (lt_of_lt_of_eq hid hu.1.length)
    obtain ⟨_, hstored', f', shapes', hf', heval', rfl⟩ :=
      hu'.2 id (lt_of_lt_of_eq hid' hu'.1.length)
    -- The document gives both the same shapes.
    rw [h.eval, heval'] at heval
    cases heval
    rw [List.get_eq_getElem, List.get_eq_getElem,
      (List.getElem?_eq_some_iff.mp hstored).2, (List.getElem?_eq_some_iff.mp hstored').2]
    obtain ⟨hlabel, hinputs, hlayers⟩ := Flow.written_eq_iff.mp (h.written hf hf')
    rw [← List.forall₂_eq_eq_eq, List.forall₂_map_left_iff, List.forall₂_map_right_iff] at hlayers
    exact ⟨hlabel, hinputs, hlayers, rfl, rfl⟩
  · rw [hu.1.rawInputs, hu'.1.rawInputs, h.rawInputs]

/-- Inferences of the same document both succeed, and leave graphs that differ in the contents of
stores at most, or both fail alike. -/
theorem WrittenAlike.inferAll {g g' : Graph} (h : WrittenAlike g g') (hwell : g.WellFormed)
    (hwell' : g'.WellFormed) :
    (∃ changed changed' u u', inferAll.Yields g changed u ∧ inferAll.Yields g' changed' u' ∧
        Like Layer.StoresAside u u') ∨
      ∃ e u u', inferAll.Fails g e u ∧ inferAll.Fails g' e u' := by
  rcases hwell.inferAll_outcome with ⟨changed, u, hyields, hu⟩ | ⟨e, u, hfails, he⟩
  · rcases hwell'.inferAll_outcome with ⟨changed', u', hyields', hu'⟩ | ⟨e, u', -, he⟩
    · refine .inl ⟨changed, changed', u, u', hyields, hyields', h.like hu hu' ?_ ?_⟩
      · rw [← hyields.2, ← hyields'.2, hwell.config_inferAll, hwell'.config_inferAll, h.config]
      · rw [← hyields.2, ← hyields'.2, hwell.analysis_inferAll, hwell'.analysis_inferAll,
          references_eq_of_inputs h.inputs.symm]
    · -- A flow without shapes has none in the other graph either.
      obtain ⟨id, hid, herror⟩ := hwell'.exists_error (failsFirst_of_passFailure? hwell'.sound he)
      obtain ⟨shapes, hshapes⟩ := (hu.2 id (h.size ▸ hid)).eval
      rw [h.eval, herror] at hshapes
      cases hshapes
  · rcases hwell'.inferAll_outcome with ⟨changed', u', -, hu'⟩ | ⟨e', u', hfails', he'⟩
    · obtain ⟨id, hid, herror⟩ := hwell.exists_error (failsFirst_of_passFailure? hwell.sound he)
      obtain ⟨shapes, hshapes⟩ := (hu'.2 id (h.size ▸ hid)).eval
      rw [← h.eval, herror] at hshapes
      cases hshapes
    · rw [h.passFailure?, he'] at he
      cases he
      exact .inr ⟨e, u, u', hfails, hfails'⟩

/-! ## Complete builds -/

/-- A complete build answers alike for all graphs of a document, whatever happened to them, and
leaves the same tape. -/
theorem buildAll_dependsOnDocument {g g' : Graph} (hreach : g.Reachable) (hreach' : g'.Reachable)
    (h : WrittenAlike g g') (raw : List Handle) (t : Tape) :
    ((buildAll raw).run (g, t)).result = ((buildAll raw).run (g', t)).result ∧
      ((buildAll raw).run (g, t)).state.2 = ((buildAll raw).run (g', t)).state.2 := by
  rw [buildAll_eq]
  rcases h.inferAll hreach.wellFormed hreach'.wellFormed with
    ⟨changed, changed', u, u', hyields, hyields', hlike⟩ | ⟨e, u, u', hfails, hfails'⟩
  · have hzoom : (onGraph inferAll).Yields (g, t) changed (u, t) :=
      yields_zoom.mpr ⟨u, hyields, rfl⟩
    have hzoom' : (onGraph inferAll).Yields (g', t) changed' (u', t) :=
      yields_zoom.mpr ⟨u', hyields', rfl⟩
    have hbuilds := across_buildInferred Tape.alike_eq Tape.alike_storesAside raw (u, t) (u', t)
      ⟨hlike, rfl⟩
    rw [(hzoom.run_bind _).1, (hzoom'.run_bind _).1, (hzoom.run_bind _).2, (hzoom'.run_bind _).2]
    exact ⟨hbuilds.1, hbuilds.2.2⟩
  · have hzoom : (onGraph inferAll).Fails (g, t) e (u, t) := fails_zoom.mpr ⟨u, hfails, rfl⟩
    have hzoom' : (onGraph inferAll).Fails (g', t) e (u', t) := fails_zoom.mpr ⟨u', hfails', rfl⟩
    obtain ⟨hresult, hstate⟩ := fails_bind.mpr (.inl hzoom)
    obtain ⟨hresult', hstate'⟩ := fails_bind.mpr (.inl hzoom')
    exact ⟨hresult.trans hresult'.symm, by rw [hstate, hstate']⟩

/-! ## A flow with a store -/

/-- A document whose only flow learns parameters. -/
def normed : Graph where
  flows := [.fresh "norm" [.raw 0] [.normalization (.ofKind .batch)]]
  rawInputs := [⟨4, 4, 3, 1⟩]
  config := .default
  analysis := some ⟨[0], [0], [0], [0]⟩

theorem reachable_normed : normed.Reachable := by
  have hsound : Sound normed.rawInputs.length normed.flows := sound_of_earlier (by decide)
  refine hsound.reachable_verified fun f hf => ?_
  obtain rfl := List.mem_singleton.mp hf
  exact .fresh _ _ _

/-- The document after a complete build, which filled the store of the layer. -/
def normedBuilt : Graph := ((buildAll [⟨0⟩]).run (normed, diamondTape)).state.1

/-- A second build answers as the first one did, although the store is filled. -/
theorem buildAll_dependsOnDocument_normed :
    normed.flows.map Flow.layers ≠ normedBuilt.flows.map Flow.layers ∧
    ((buildAll [⟨0⟩]).run (normed, diamondTape)).result =
      ((buildAll [⟨0⟩]).run (normedBuilt, diamondTape)).result ∧
    ((buildAll [⟨0⟩]).run (normed, diamondTape)).state.2 =
      ((buildAll [⟨0⟩]).run (normedBuilt, diamondTape)).state.2 := by
  have hreach : normedBuilt.Reachable := reachable_normed.step (.buildAll normed diamondTape [⟨0⟩])
  have hwritten : WrittenAlike normed normedBuilt := ⟨by decide +kernel, by decide +kernel,
    by decide +kernel⟩
  exact ⟨by decide +kernel,
    buildAll_dependsOnDocument reachable_normed hreach hwritten [⟨0⟩] diamondTape⟩

end Graph

end LayerFlow
