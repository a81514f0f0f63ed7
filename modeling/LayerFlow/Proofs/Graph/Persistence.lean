/-
LayerFlow.Proofs.Graph.Persistence

Saving a graph and loading it again.  What is loaded is the document that was saved, without
anything that had been derived from it; inferences of both end alike.  A graph is always saved, but
what was saved can be loaded only if all its numbers are finite, because the others are written as
null.

Main statements: `export_import`, the document survives, and `import_iff_finite`, which texts can be
loaded.
-/
import LayerFlow.Proofs.Document.Reading
import LayerFlow.Proofs.Document.Written
import LayerFlow.Proofs.Graph.Independence

namespace LayerFlow.Graph

open Op

/-! ## What is written -/

/-- The numbers that a graph is written with: the factors of its layers and the values in their
buffers. -/
def numbers (g : Graph) : List Binary32 := g.flows.flatMap Flow.numbers

/-- The whole numbers of a graph are those of the machine: extents with a sign, sizes without. -/
structure Sized (g : Graph) : Prop where
  extents : ∀ s ∈ g.rawInputs, ∀ n ∈ s.toList, Extent.Fits n
  sizes : ∀ f ∈ g.flows, ∀ n ∈ f.writtenSizes, Size.Fits n

/-- The document of a graph under other settings, with nothing derived from it. -/
def loaded (g : Graph) (config : Config) : Graph :=
  ⟨g.flows.map Flow.clear, g.rawInputs, config, none⟩

variable {g : Graph} {config : Config}

theorem sameDocument_loaded (g : Graph) (config : Config) : SameDocument g (g.loaded config) :=
  ⟨rfl, by rw [loaded, List.map_map]; rfl⟩

/-- What was derived is not written. -/
theorem exportText_loaded (g : Graph) (config : Config) :
    (g.loaded config).exportText = g.exportText := by
  have hflows : Document.encode (g.flows.map Flow.clear) = Document.encode g.flows := by
    show Json.list ((g.flows.map Flow.clear).map Document.encode) = _
    rw [List.map_map]
    rfl
  show Json.pretty (.obj [_, _, ("flows", Document.encode (g.flows.map Flow.clear))]) = _
  rw [hflows]
  rfl

/-- The text of a graph is that of a record without anything derived, unless a number is not
finite. -/
theorem decode?_exportText (hsized : g.Sized) (hkept : Document.Kept g.numbers) :
    (Json.parse? g.exportText).bind Document.decode? =
      Document.ifFinite g.numbers (g.loaded config).record := by
  rw [exportText, Document.parse?_encode, Option.bind_some]
  exact Document.decode?_encode_record (r := g.record) rfl hsized.extents hsized.sizes hkept

theorem ofRecord_loaded (h : g.WellFormed) (hconfig : config.Valid) :
    ofRecord (g.loaded config).record config = .ok (g.loaded config) := by
  have hsound : Sound g.rawInputs.length (g.flows.map Flow.clear) :=
    h.sound.congr (sameDocument_loaded g config).inputs
  exact ofRecord_eq_ok_iff.mpr ⟨rfl, hconfig, hsound, rfl⟩

theorem ofText_of_finite (h : g.WellFormed) (hsized : g.Sized) (hkept : Document.Kept g.numbers)
    (hfinite : ∀ x ∈ g.numbers, x.isFinite = true) (hconfig : config.Valid) :
    ofText g.exportText config = .ok (g.loaded config) := by
  have hdecode : _ = Document.ifFinite g.numbers (g.loaded config).record :=
    decode?_exportText hsized hkept
  rw [Document.ifFinite_eq_some_iff.mpr ⟨hfinite, rfl⟩] at hdecode
  simp only [ofText, hdecode, ofRecord_loaded h hconfig]

theorem ofText_of_not_finite (hsized : g.Sized) (hkept : Document.Kept g.numbers)
    (hfinite : ¬ ∀ x ∈ g.numbers, x.isFinite = true) :
    ofText g.exportText config = .error .badDocument := by
  have hdecode : _ = Document.ifFinite g.numbers (g.loaded config).record :=
    decode?_exportText hsized hkept
  rw [Document.ifFinite_eq_none_iff.mpr hfinite] at hdecode
  simp only [ofText, hdecode]

theorem yields_exportJson (g : Graph) : exportJson.Yields g g.exportText g := ⟨rfl, rfl⟩

theorem yields_importJson {text : String} {h : Graph} (hread : ofText text config = .ok h)
    (other : Graph) : (importJson text config).Yields other () h :=
  yields_bind.mpr ⟨h, other, yields_ofExcept.mpr ⟨hread, rfl⟩,
    yields_bind.mpr ⟨(), other, yields_say.mpr rfl, yields_set.mpr rfl⟩⟩

theorem fails_importJson {text : String} {e : Failure} (hread : ofText text config = .error e)
    (other : Graph) : (importJson text config).Fails other e other :=
  fails_bind.mpr (.inl (fails_ofExcept.mpr ⟨hread, rfl⟩))

/-! ## Inferences of the same document -/

/-- The first flow without shapes fails alike in all graphs of a document. -/
theorem SameDocument.failsFirst_unique {g' : Graph} (h : SameDocument g g') {e e' : Failure}
    (hfails : g.FailsFirst e) (hfails' : g'.FailsFirst e') : e = e' := by
  have heval : g'.eval = g.eval := funext h.eval
  have hrefs : g'.references = g.references := references_eq_of_inputs h.inputs
  simp only [FailsFirst, FirstToFail, StopsAt, heval, hrefs] at hfails'
  obtain ⟨id, hid⟩ := hfails
  obtain ⟨id', hid'⟩ := hfails'
  obtain rfl := hid.unique hid'
  obtain ⟨_, _, -, -, herror⟩ := hid
  obtain ⟨_, _, -, -, herror'⟩ := hid'
  rw [herror] at herror'
  cases herror'
  rfl

/-- Settled graphs of one document have the same shapes. -/
theorem SameDocument.shapes_settled {g' u u' : Graph} (h : SameDocument g g') (hu : Settled g u)
    (hu' : Settled g' u') : u'.flows.map Flow.shapes = u.flows.map Flow.shapes := by
  refine List.ext_getElem? fun id => ?_
  rw [List.getElem?_map, List.getElem?_map]
  by_cases hid : id < g.size
  · obtain ⟨f, hf⟩ := getElem?_of_lt_size hid
    obtain ⟨f', hf', -⟩ := h.flow hf
    obtain ⟨shapes, heval, hstored⟩ := hu.flow hf
    obtain ⟨shapes', heval', hstored'⟩ := hu'.flow hf'
    rw [h.eval, heval] at heval'
    cases heval'
    rw [hstored, hstored']
    rfl
  · have hnone : ∀ flows : List Flow, flows.length = g.flows.length → flows[id]? = none :=
      fun flows hlength => List.getElem?_eq_none_iff.mpr (hlength ▸ Nat.le_of_not_lt hid)
    rw [hnone _ hu.1.length, hnone _ (hu'.1.length.trans h.length)]

/-- Two inferences end alike: both succeed, and leave the same shapes, or both fail, and unless a
number overflowed they fail with the same failure. -/
def InferAlike (g g' : Graph) : Prop :=
  (∃ changed changed' u u', inferAll.Yields g changed u ∧ inferAll.Yields g' changed' u' ∧
    u'.flows.map Flow.shapes = u.flows.map Flow.shapes) ∨
  ∃ e e' u u', inferAll.Fails g e u ∧ inferAll.Fails g' e' u' ∧
    (e ≠ .overflow → e' ≠ .overflow → e = e')

/-- Inferences of one document end alike, whatever was derived from it before and whatever the
settings are. -/
theorem SameDocument.inferAlike {g' : Graph} (h : SameDocument g g') (hwell : g.WellFormed)
    (hwell' : g'.WellFormed) : InferAlike g g' := by
  have hsize : g'.size = g.size := h.length
  rcases hwell.inferAll_spec with ⟨changed, u, hyields, hu⟩ | ⟨e, u, hfails, he⟩
  · rcases hwell'.inferAll_spec with ⟨changed', u', hyields', hu'⟩ | ⟨e', u', -, he'⟩
    · exact .inl ⟨changed, changed', u, u', hyields, hyields', h.shapes_settled hu hu'⟩
    · -- A flow without shapes has none in the other graph either.
      obtain ⟨id, hid, herror⟩ := hwell'.exists_error he'
      obtain ⟨shapes, hshapes⟩ := (hu.2 id (hsize ▸ hid)).eval
      rw [h.eval, hshapes] at herror
      cases herror
  · rcases hwell'.inferAll_spec with ⟨changed', u', -, hu'⟩ | ⟨e', u', hfails', he'⟩
    · obtain ⟨id, hid, herror⟩ := hwell.exists_error he
      obtain ⟨shapes, hshapes⟩ := (hu'.2 id (hsize ▸ hid)).eval
      rw [h.eval, herror] at hshapes
      cases hshapes
    · refine .inr ⟨e, e', u, u', hfails, hfails', fun hne hne' => ?_⟩
      exact h.failsFirst_unique (he.resolve_left fun hoverflow => hne hoverflow.1)
        (he'.resolve_left fun hoverflow => hne' hoverflow.1)

/-! ## Saving and loading -/

/-- A graph whose numbers are finite is saved and loaded again, under any valid settings: with the
same raw inputs, and with flows of the same labels, sources and layers, stores included.  Nothing
that was derived from it comes along, neither shapes nor builds nor the analysis.  What was loaded
is saved as the same text, and inferences of both end alike.  The whole numbers have to be those of
the machine, and decimals are taken to round back to the numbers that they were written for. -/
theorem export_import (hreach : g.Reachable) (hsized : g.Sized)
    (hfinite : ∀ x ∈ g.numbers, x.isFinite = true) (hkept : Document.Kept g.numbers)
    (hconfig : config.Valid) :
    exportJson.Yields g g.exportText g ∧
    ∃ h : Graph, (∀ other, (importJson g.exportText config).Yields other () h) ∧
      h.rawInputs = g.rawInputs ∧
      h.flows = g.flows.map (fun f => .fresh f.label f.inputs f.layers) ∧
      h.config = config ∧ h.analysis = none ∧
      exportJson.Yields h g.exportText h ∧ InferAlike g h := by
  have hread := ofText_of_finite hreach.wellFormed hsized hkept hfinite hconfig
  have hdoc := sameDocument_loaded g config
  refine ⟨yields_exportJson g, g.loaded config, yields_importJson hread, rfl, rfl, rfl, rfl, ?_,
    hdoc.inferAlike hreach.wellFormed (wellFormed_ofText hread)⟩
  have hexport := yields_exportJson (g.loaded config)
  rwa [exportText_loaded] at hexport

/-- The built graph, whose buffers are filled, is loaded without its build; other settings do not
change that it infers what it had. -/
theorem export_import_normed :
    let config : Config := { Config.default with parallel := true, workers := 4 }
    ∃ h : Graph, (∀ other, (importJson normedBuilt.exportText config).Yields other () h) ∧
      h.flows.map Flow.layers = normedBuilt.flows.map Flow.layers ∧
      h.flows.map Flow.layers ≠ normed.flows.map Flow.layers ∧
      (∀ f ∈ h.flows, f.state = .unbuilt) ∧ InferAlike normedBuilt h := by
  intro config
  have hreach : normedBuilt.Reachable := reachable_normed.step (.buildAll normed diamondTape [⟨0⟩])
  have hsized : normedBuilt.Sized := ⟨by decide +kernel, by decide +kernel⟩
  obtain ⟨-, h, hread, -, hflows, -, -, -, halike⟩ := export_import hreach hsized
    (by decide +kernel) (show ∀ x ∈ normedBuilt.numbers, _ by decide +kernel)
    (show config.Valid from ⟨by decide, by decide, by decide⟩)
  have hlayers : h.flows.map Flow.layers = normedBuilt.flows.map Flow.layers := by
    rw [hflows, List.map_map]
    rfl
  refine ⟨h, hread, hlayers, ?_, ?_, halike⟩
  · rw [hlayers]
    decide +kernel
  · rw [hflows]
    simp [Flow.fresh]

/-- A graph is always saved, but the text can be loaded only if all numbers of the graph are finite;
otherwise it is refused as a text that is no document. -/
theorem import_iff_finite (hreach : g.Reachable) (hsized : g.Sized)
    (hkept : Document.Kept g.numbers) :
    exportJson.Yields g g.exportText g ∧
    ((∀ other, ∃ h, (importJson g.exportText .default).Yields other () h) ↔
      ∀ x ∈ g.numbers, x.isFinite = true) ∧
    ((∃ x ∈ g.numbers, x.isFinite = false) → ∀ other,
      (importJson g.exportText .default).Fails other .badDocument other) := by
  have hdefault : Config.default.Valid := ⟨by decide, by decide, by decide⟩
  have hrefused : ∀ other, (¬ ∀ x ∈ g.numbers, x.isFinite = true) →
      (importJson g.exportText .default).Fails other .badDocument other := fun other hfinite =>
    fails_importJson (ofText_of_not_finite hsized hkept hfinite) other
  refine ⟨yields_exportJson g, ⟨fun hloads => ?_, fun hfinite other => ?_⟩, ?_⟩
  · by_contra hfinite
    obtain ⟨h, hyields⟩ := hloads g
    exact hyields.not_fails (hrefused g hfinite)
  · exact ⟨_, yields_importJson
      (ofText_of_finite hreach.wellFormed hsized hkept hfinite hdefault) other⟩
  · rintro ⟨x, hx, hinfinite⟩ other
    refine hrefused other fun hfinite => ?_
    rw [hfinite x hx] at hinfinite
    cases hinfinite

/-- A document with a rectifier whose leak is not a number. -/
def leaking : Graph where
  flows := [.fresh "leak" [.raw 0] [.neuron ⟨.relu, .nan, .zero, .zero⟩]]
  rawInputs := [⟨4, 4, 3, 1⟩]
  config := .default
  analysis := some ⟨[0], [0], [0], [0]⟩

theorem reachable_leaking : leaking.Reachable := by
  have hsound : Sound leaking.rawInputs.length leaking.flows := sound_of_earlier (by decide)
  refine hsound.reachable_verified fun f hf => ?_
  obtain rfl := List.mem_singleton.mp hf
  exact .fresh _ _ _

theorem sized_leaking : leaking.Sized := ⟨by decide +kernel, by decide +kernel⟩

theorem kept_leaking : Document.Kept leaking.numbers :=
  show ∀ x ∈ leaking.numbers, _ by decide +kernel

/-- The leaking document is saved, and what was saved cannot be loaded. -/
theorem export_without_import :
    leaking.Reachable ∧ exportJson.Yields leaking leaking.exportText leaking ∧
      ∀ other, (importJson leaking.exportText .default).Fails other .badDocument other := by
  have hfinite : ¬ ∀ x ∈ leaking.numbers, x.isFinite = true := by decide +kernel
  exact ⟨reachable_leaking, yields_exportJson leaking,
    fails_importJson (ofText_of_not_finite sized_leaking kept_leaking hfinite)⟩

/-- Inference takes no offence at the leak: the document is inferred, saved and refused. -/
theorem import_iff_finite_leaking :
    (inferAll.run leaking).result = .ok true ∧
      ¬ ∀ other, ∃ h, (importJson leaking.exportText .default).Yields other () h := by
  refine ⟨rfl, fun hloads => ?_⟩
  have hfinite := (import_iff_finite reachable_leaking sized_leaking kept_leaking).2.1.mp hloads
  revert hfinite
  decide +kernel

end LayerFlow.Graph
