/-
LayerFlow.Proofs.Graph.Reachable

The graphs that any history of edits, inferences and builds can leave behind, also of edits that
were refused and of work that failed half-way.  Every step keeps a graph well formed: its
document is sound, its settings are valid, an analysis that is kept is the right one, and every
flow has a history of its own.

Main statements: `Reachable.wellFormed`, and `reachable_inOrder`, what it says about the document
alone.
-/
import LayerFlow.Graph.Build
import LayerFlow.Proofs.Flow.Reachable
import LayerFlow.Proofs.Graph.Structure
import LayerFlow.Record

namespace LayerFlow.Graph

open Op

/-! ## Steps -/

/-- One use of a graph, whether it succeeds or fails. -/
inductive Step : Graph → Graph → Prop
  | addRawInput (g : Graph) (shape : Shape) : Step g ((Graph.addRawInput shape).run g).state
  | setRawInput (g : Graph) (slot : Nat) (shape : Shape) :
      Step g ((Graph.setRawInput slot shape).run g).state
  | setConfig (g : Graph) (config : Config) : Step g ((Graph.setConfig config).run g).state
  | addFlow (g : Graph) {f : Flow} (hf : f.Reachable) : Step g ((Graph.addFlow f).run g).state
  | insertFlow (g : Graph) (index : Nat) {f : Flow} (hf : f.Reachable) :
      Step g ((Graph.insertFlow index f).run g).state
  | removeFlow (g : Graph) (id : Nat) : Step g ((Graph.removeFlow id).run g).state
  | duplicateFlow (g : Graph) (id : Nat) : Step g ((Graph.duplicateFlow id).run g).state
  | addInputSource (g : Graph) (id : Nat) (source : Source) :
      Step g ((Graph.addInputSource id source).run g).state
  | removeInputSource (g : Graph) (id index : Nat) :
      Step g ((Graph.removeInputSource id index).run g).state
  | verify (g : Graph) : Step g (Graph.verify.run g).state
  | inferAll (g : Graph) : Step g (Graph.inferAll.run g).state
  | buildForwardAll {β : Type} [Backend β] (g : Graph) (b : β) (raw : List Handle) :
      Step g ((Graph.buildForwardAll raw).run (g, b)).state.1
  | buildBackwardAll {β : Type} [Backend β] (g : Graph) (b : β) :
      Step g (Graph.buildBackwardAll.run (g, b)).state.1
  | buildAll {β : Type} [Backend β] (g : Graph) (b : β) (raw : List Handle) :
      Step g ((Graph.buildAll raw).run (g, b)).state.1
  /-- Work on a single flow that is handed out: any sequence of its own steps. -/
  | editFlow {β α : Type} (g : Graph) (b : β) (id : Nat) (x : Op Failure (Flow × β) α)
      (hx : ∀ f b, Relation.ReflTransGen Flow.Step f (x.run (f, b)).state.1) :
      Step g ((Graph.editFlow id x).run (g, b)).state.1

/-- The graphs that come out of some history: of an empty graph or of one that was read. -/
inductive Reachable : Graph → Prop
  | empty {processors : Nat} (h : 1 ≤ processors) : Reachable (.empty processors)
  | withConfig {config : Config} {g : Graph} (h : Graph.withConfig config = .ok g) : Reachable g
  | ofText {text : String} {config : Config} {g : Graph} (h : Graph.ofText text config = .ok g) :
      Reachable g
  | ofRecord {r : Record} {config : Config} {g : Graph} (hflows : ∀ f ∈ r.flows, f.Reachable)
      (h : Graph.ofRecord r config = .ok g) : Reachable g
  | step {g g' : Graph} (h : Reachable g) (hstep : Step g g') : Reachable g'

/-- What every reachable graph keeps. -/
structure WellFormed (g : Graph) : Prop where
  sound : Sound g.rawInputs.length g.flows
  config : g.config.Valid
  analysis : ∀ analysis, g.analysis = some analysis → analysis = g.references.analysis
  flows : ∀ f ∈ g.flows, f.Reachable

/-! ## Flows that change one by one -/

theorem flow_eq_ok_iff {g : Graph} {id : Nat} {f : Flow} :
    g.flow id = .ok f ↔ g.flows[id]? = some f := by
  rw [flow]
  cases g.flows[id]? <;> simp

theorem set_eq_self {α : Type} {xs : List α} {i : Nat} {x : α} (h : xs[i]? = some x) :
    xs.set i x = xs := by
  obtain ⟨hlt, rfl⟩ := List.getElem?_eq_some_iff.mp h
  exact List.set_getElem_self hlt

/-- Sources stay if the new flow has those of the old one. -/
theorem inputs_setFlow {g : Graph} {id : Nat} {f : Flow}
    (hinputs : (g.flows.map Flow.inputs)[id]? = some f.inputs) :
    (g.setFlow id f).flows.map Flow.inputs = g.flows.map Flow.inputs := by
  show (g.flows.set id f).map Flow.inputs = _
  rw [List.map_set, set_eq_self hinputs]

/-- Some flows of the graph changed, but none of their sources. -/
structure Derived (g g' : Graph) : Prop where
  rawInputs : g'.rawInputs = g.rawInputs
  config : g'.config = g.config
  analysis : g'.analysis = g.analysis
  inputs : g'.flows.map Flow.inputs = g.flows.map Flow.inputs
  flows : ∀ f ∈ g'.flows, f.Reachable

theorem WellFormed.derived {g : Graph} (h : g.WellFormed) : Derived g g :=
  ⟨rfl, rfl, rfl, rfl, h.flows⟩

theorem WellFormed.of_derived {g g' : Graph} (h : g.WellFormed) (hderived : Derived g g') :
    g'.WellFormed where
  sound := by
    rw [hderived.rawInputs]
    exact h.sound.congr hderived.inputs
  config := hderived.config ▸ h.config
  analysis := by
    intro analysis hanalysis
    rw [references_eq_of_inputs hderived.inputs]
    exact h.analysis analysis (hderived.analysis ▸ hanalysis)
  flows := hderived.flows

/-- A flow may be replaced by one with the same sources as it had at the start. -/
theorem Derived.setFlow {g g' : Graph} (h : Derived g g') {id : Nat} {f f' : Flow}
    (hf : g.flows[id]? = some f) (hinputs : f'.inputs = f.inputs) (hreach : f'.Reachable) :
    Derived g (g'.setFlow id f') where
  rawInputs := h.rawInputs
  config := h.config
  analysis := h.analysis
  inputs := by
    have hid : (g'.flows.map Flow.inputs)[id]? = some f'.inputs := by
      rw [h.inputs, List.getElem?_map, hf, hinputs]
      rfl
    rw [inputs_setFlow hid, h.inputs]
  flows := by
    intro other hother
    rcases List.mem_or_eq_of_mem_set hother with hother | rfl
    · exact h.flows other hother
    · exact hreach

theorem Derived.clearFlows {g g' : Graph} (h : Derived g g') (ids : List Nat) :
    Derived g (g'.clearFlows ids) := by
  induction ids generalizing g' with
  | nil => exact h
  | cons id ids ih =>
    -- Clearing a flow changes neither its sources nor what can be done to it.
    have hfirst : Derived g { g' with flows := g'.flows.modify id Flow.clear } := by
      refine ⟨h.rawInputs, h.config, h.analysis, ?_, ?_⟩
      · rw [← h.inputs]
        apply List.ext_getElem?
        intro other
        rw [List.getElem?_map, List.getElem?_modify, List.getElem?_map]
        split
        · cases g'.flows[other]? <;> rfl
        · simp
      · intro f hf
        obtain ⟨other, hother⟩ := List.mem_iff_getElem?.mp hf
        rw [List.getElem?_modify] at hother
        obtain ⟨old, hold, heq⟩ := Option.map_eq_some_iff.mp hother
        have hreach := h.flows old (List.mem_of_getElem? hold)
        split at heq
        · exact heq ▸ hreach.step (.notInferred old)
        · exact heq ▸ hreach
    exact ih hfirst

/-! ## Edits -/

theorem wellFormed_resetAll {g : Graph} (hsound : Sound g.rawInputs.length g.flows)
    (hconfig : g.config.Valid) (hflows : ∀ f ∈ g.flows, f.Reachable) :
    g.resetAll.WellFormed where
  sound := by
    refine hsound.congr ?_
    show (g.flows.map Flow.reset).map Flow.inputs = _
    rw [List.map_map]
    rfl
  config := hconfig
  analysis := by
    intro analysis hanalysis
    cases hanalysis
  flows := by
    intro f hf
    obtain ⟨old, hold, rfl⟩ := List.mem_map.mp hf
    exact (hflows old hold).step (.reset old)

theorem preserves_addRawInput (shape : Shape) :
    Preserves WellFormed (Graph.addRawInput shape) := by
  refine preserves_get_bind fun g h => ?_
  refine wellFormed_resetAll (h.sound.mono ?_) h.config h.flows
  simp

theorem preserves_setRawInput (slot : Nat) (shape : Shape) :
    Preserves WellFormed (Graph.setRawInput slot shape) := by
  refine preserves_get_bind fun g h => ?_
  split
  · refine wellFormed_resetAll (h.sound.mono ?_) h.config h.flows
    simp
  · exact h

theorem preserves_setConfig (config : Config) :
    Preserves WellFormed (Graph.setConfig config) := by
  refine preserves_ofExcept_bind fun checked hchecked => ?_
  obtain ⟨hvalid, rfl⟩ := Config.check_eq_ok_iff.mp hchecked
  exact preserves_modify fun g h => ⟨h.sound, hvalid, h.analysis, h.flows⟩

/-- An edit of the list of flows is checked before it counts. -/
theorem preserves_editFlows {change : List Flow → Except Failure (List Flow)}
    (hchange : ∀ flows flows', change flows = .ok flows' → (∀ f ∈ flows, f.Reachable) →
      ∀ f ∈ flows', f.Reachable) : Preserves WellFormed (editFlows change) := by
  rw [editFlows_eq]
  refine preserves_get_bind fun g h => ?_
  refine preserves_ofExcept_bind (fun flows hflows => ?_) g h
  refine preserves_ofExcept_bind fun _ hcheck => ?_
  exact preserves_set (wellFormed_resetAll (checkStructure_eq_ok_iff_sound.mp hcheck) h.config
    (hchange g.flows flows hflows h.flows))

theorem preserves_addFlow {f : Flow} (hf : f.Reachable) :
    Preserves WellFormed (Graph.addFlow f) := by
  refine preserves_get_bind fun g h => ?_
  refine preserves_bind (preserves_editFlows ?_) (fun _ => ?_) g h
  · rintro flows _ ⟨⟩ hflows other hother
    rcases List.mem_append.mp hother with hother | hother
    · exact hflows other hother
    · rw [List.mem_singleton.mp hother]
      exact hf
  · exact preserves_bind (preserves_say _ _) fun _ => preserves_pure _

theorem preserves_insertFlow (index : Nat) {f : Flow} (hf : f.Reachable) :
    Preserves WellFormed (Graph.insertFlow index f) := by
  refine preserves_get_bind fun g h => ?_
  split
  · refine preserves_bind (preserves_editFlows ?_) (fun _ => ?_) g h
    · intro flows flows' hchange hflows other hother
      -- Every flow of the new list is one of the old ones, or the new one, renumbered.
      obtain ⟨old, hold, hshift⟩ := Traversal.exists_of_mem_mapM hchange hother
      obtain ⟨inputs, -, hinputs⟩ := Traversal.bind_eq_ok_iff.mp hshift
      rw [Traversal.pure_eq_ok_iff.mp hinputs]
      refine Flow.Reachable.withInputs ?_ inputs
      rcases List.eq_or_mem_of_mem_insertIdx hold with rfl | hmem
      · exact hf
      · exact hflows old hmem
    · exact preserves_bind (preserves_say _ _) fun _ => preserves_pure _
  · exact h

theorem preserves_removeFlow (id : Nat) : Preserves WellFormed (Graph.removeFlow id) := by
  refine preserves_get_bind fun g h => ?_
  refine preserves_ofExcept_bind (fun removed hremoved => ?_) g h
  have hid : id < g.flows.length :=
    (List.getElem?_eq_some_iff.mp (flow_eq_ok_iff.mp hremoved)).1
  refine preserves_bind (preserves_note _) fun _ => ?_
  refine preserves_bind (preserves_set ?_) fun _ => ?_
  -- What is left has lost a source at most, and references are renumbered.
  · refine wellFormed_resetAll (h.sound.eraseIdx hid) h.config fun f hf => ?_
    obtain ⟨old, hold, rfl⟩ := List.mem_map.mp hf
    exact (h.flows old (List.mem_of_mem_eraseIdx hold)).withInputs _
  · exact preserves_bind (preserves_say _ _) fun _ => preserves_pure removed

theorem preserves_duplicateFlow (id : Nat) : Preserves WellFormed (Graph.duplicateFlow id) := by
  refine preserves_get_bind fun g h => ?_
  refine preserves_ofExcept_bind (fun f _ => ?_) g h
  exact preserves_insertFlow (id + 1) (.fresh (f.label ++ " copy") f.inputs f.layers)

theorem preserves_addInputSource (id : Nat) (source : Source) :
    Preserves WellFormed (Graph.addInputSource id source) := by
  refine preserves_get_bind fun g h => ?_
  refine preserves_ofExcept_bind (fun f hf => ?_) g h
  have hreach := h.flows f (List.mem_of_getElem? (flow_eq_ok_iff.mp hf))
  refine preserves_mapError (preserves_editFlows ?_)
  rintro flows _ ⟨⟩ hflows other hother
  rcases List.mem_or_eq_of_mem_set hother with hother | rfl
  · exact hflows other hother
  · exact hreach.withInputs _

theorem preserves_removeInputSource (id index : Nat) :
    Preserves WellFormed (Graph.removeInputSource id index) := by
  refine preserves_get_bind fun g h => ?_
  refine preserves_ofExcept_bind (fun f hf => ?_) g h
  have hf := flow_eq_ok_iff.mp hf
  split
  · refine preserves_bind (preserves_set (wellFormed_resetAll ?_ h.config ?_)) fun _ =>
      preserves_pure _
    -- Losing a source cannot close a cycle.
    · exact h.sound.set_of_subset hf fun s hs => List.mem_of_mem_eraseIdx hs
    · intro other hother
      rcases List.mem_or_eq_of_mem_set hother with hother | rfl
      · exact h.flows other hother
      · exact (h.flows f (List.mem_of_getElem? hf)).withInputs _
  · exact preserves_fail _

/-! ## Inference -/

theorem preserves_verify : Preserves WellFormed Graph.verify := by
  refine preserves_get_bind fun g h => ?_
  refine preserves_ofExcept_bind (fun _ _ => ?_) g h
  refine preserves_bind (preserves_say _ _) fun _ => ?_
  refine preserves_bind (preserves_set ⟨h.sound, h.config, ?_, h.flows⟩) fun _ => preserves_pure _
  rintro analysis ⟨⟩
  rfl

theorem preserves_ensureVerified : Preserves WellFormed ensureVerified := by
  refine preserves_get_bind fun g h => ?_
  split
  · exact h
  · exact preserves_verify g h

/-- Verifying a sound document succeeds, and keeps the analysis. -/
theorem Sound.yields_verify {g : Graph} (h : Sound g.rawInputs.length g.flows) :
    Graph.verify.Yields g g.references.analysis
      { g with analysis := some g.references.analysis } := by
  rw [Graph.verify]
  simp only [yields_bind, yields_get, yields_ofExcept, yields_say, yields_set, yields_pure]
  exact ⟨g, g, ⟨rfl, rfl⟩, (), g, ⟨checkStructure_eq_ok_iff_sound.mpr h, rfl⟩, (), g, rfl,
    (), _, rfl, rfl, rfl⟩

/-- The analysis of a sound document is found, or known already. -/
theorem Sound.yields_ensureVerified {g : Graph} (h : Sound g.rawInputs.length g.flows)
    (hkept : ∀ analysis, g.analysis = some analysis → analysis = g.references.analysis) :
    ensureVerified.Yields g g.references.analysis
      { g with analysis := some g.references.analysis } := by
  refine yields_bind.mpr ⟨g, g, yields_get.mpr ⟨rfl, rfl⟩, ?_⟩
  cases hanalysis : g.analysis with
  -- An analysis that is there is the one that would be found again.
  | some analysis =>
    obtain rfl := hkept analysis hanalysis
    refine yields_pure.mpr ⟨rfl, ?_⟩
    rw [← hanalysis]
  | none => exact h.yields_verify

theorem WellFormed.yields_ensureVerified {g : Graph} (h : g.WellFormed) :
    ensureVerified.Yields g g.references.analysis
      { g with analysis := some g.references.analysis } :=
  h.sound.yields_ensureVerified h.analysis

/-- What an inference leaves of a flow has the same sources. -/
theorem reachable_infer {f : Flow} (h : f.Reachable) (resolve : Flow.Resolver) :
    ((Flow.infer resolve).run f).state.Reachable ∧
      ((Flow.infer resolve).run f).state.inputs = f.inputs :=
  ⟨h.step (Flow.step_infer f resolve), (Flow.step_infer f resolve).inputs_eq⟩

theorem WellFormed.inferInOrder {g : Graph} (h : g.WellFormed) (ids : List Nat) :
    ((Graph.inferInOrder ids).run g).state.WellFormed := by
  induction ids generalizing g with
  | nil => exact h
  | cons id rest ih =>
    rw [Op.run, Graph.inferInOrder]
    dsimp only
    cases hflow : g.flow id with
    | error e => exact h
    | ok f =>
      have hf := flow_eq_ok_iff.mp hflow
      obtain ⟨hreach, hinputs⟩ := reachable_infer (h.flows f (List.mem_of_getElem? hf)) g.resolve
      have hset := h.derived.setFlow hf hinputs hreach
      dsimp only
      cases ((Flow.infer g.resolve).run f).result with
      -- A failure clears the flows that were still to come.
      | error e => exact h.of_derived (hset.clearFlows rest)
      | ok changed => exact ih (h.of_derived hset)

/-- What an inference makes of the flows of a level, each on its own. -/
def outcomes (g : Graph) (ids : List Nat) : List (Nat × Outcome Failure Flow Bool) :=
  ids.filterMap fun id => g.flows[id]?.map fun f => (id, (Flow.infer g.resolve).run f)

theorem mem_outcomes {g : Graph} {ids : List Nat} {entry : Nat × Outcome Failure Flow Bool} :
    entry ∈ g.outcomes ids ↔ entry.1 ∈ ids ∧
      ∃ f, g.flows[entry.1]? = some f ∧ entry.2 = (Flow.infer g.resolve).run f := by
  rw [outcomes, List.mem_filterMap]
  constructor
  · rintro ⟨id, hid, hentry⟩
    obtain ⟨f, hf, rfl⟩ := Option.map_eq_some_iff.mp hentry
    exact ⟨hid, f, hf, rfl⟩
  · rintro ⟨hid, f, hf, heq⟩
    exact ⟨entry.1, hid, Option.map_eq_some_iff.mpr ⟨f, hf, by rw [← heq]⟩⟩

theorem WellFormed.inferLevel {g : Graph} (h : g.WellFormed) (ids : List Nat) :
    ((Graph.inferLevel ids).run g).state.WellFormed := by
  -- The flows of a level are inferred from the graph before the level and stored one by one.
  have hfold : ∀ (entries : List (Nat × Outcome Failure Flow Bool)) (g' : Graph),
      Derived g g' → (∀ entry ∈ entries, entry ∈ g.outcomes ids) →
      Derived g (entries.foldl (fun g entry => g.setFlow entry.1 entry.2.state) g') := by
    intro entries
    induction entries with
    | nil => exact fun g' hderived _ => hderived
    | cons entry entries ih =>
      intro g' hderived hentries
      obtain ⟨-, f, hf, heq⟩ := mem_outcomes.mp (hentries entry List.mem_cons_self)
      obtain ⟨hreach, hinputs⟩ := reachable_infer (h.flows f (List.mem_of_getElem? hf)) g.resolve
      rw [← heq] at hreach hinputs
      exact ih _ (hderived.setFlow hf hinputs hreach) fun other hother =>
        hentries other (List.mem_cons_of_mem _ hother)
  have hderived := hfold (g.outcomes ids) g h.derived fun _ hentry => hentry
  unfold Op.run Graph.inferLevel
  dsimp only
  split
  · exact h.of_derived hderived
  · exact h.of_derived hderived

theorem WellFormed.clearFlows {g : Graph} (h : g.WellFormed) (ids : List Nat) :
    (g.clearFlows ids).WellFormed :=
  h.of_derived (h.derived.clearFlows ids)

theorem WellFormed.inferLevels {g : Graph} (h : g.WellFormed) (groups : List (List Nat)) :
    ((Graph.inferLevels groups).run g).state.WellFormed := by
  induction groups generalizing g with
  | nil => exact h
  | cons ids later ih =>
    have hlevel := h.inferLevel ids
    rw [Op.run, Graph.inferLevels]
    dsimp only
    cases ((Graph.inferLevel ids).run g).result with
    | error e => exact hlevel.clearFlows later.flatten
    | ok changed => exact ih hlevel

/-- What a graph is apart from its flows. -/
def frame (g : Graph) : Graph := { g with flows := [] }

/-- A pass changes nothing but flows. -/
theorem frame_inferInOrder (ids : List Nat) (g : Graph) :
    ((Graph.inferInOrder ids).run g).state.frame = g.frame := by
  induction ids generalizing g with
  | nil => rfl
  | cons id rest ih =>
    rw [Op.run, Graph.inferInOrder]
    dsimp only
    split
    · rfl
    · split
      · rfl
      · exact ih _

theorem frame_inferLevel (ids : List Nat) (g : Graph) :
    ((Graph.inferLevel ids).run g).state.frame = g.frame := by
  have hfold : ∀ (entries : List (Nat × Outcome Failure Flow Bool)) (g' : Graph),
      (entries.foldl (fun g entry => g.setFlow entry.1 entry.2.state) g').frame = g'.frame := by
    intro entries
    induction entries with
    | nil => exact fun _ => rfl
    | cons entry entries ih => exact fun g' => ih (g'.setFlow entry.1 entry.2.state)
  unfold Op.run Graph.inferLevel
  dsimp only
  split
  · exact hfold _ g
  · exact hfold _ g

theorem frame_inferLevels (groups : List (List Nat)) (g : Graph) :
    ((Graph.inferLevels groups).run g).state.frame = g.frame := by
  induction groups generalizing g with
  | nil => rfl
  | cons ids later ih =>
    rw [Op.run, Graph.inferLevels]
    dsimp only
    split
    · exact frame_inferLevel ids g
    · exact (ih _).trans (frame_inferLevel ids g)

theorem preserves_settle {P : Graph → Prop} {pass : Op Failure Graph Bool}
    (hpass : Preserves P pass) (limit left : Nat) (anyChanged : Bool) :
    Preserves P (settle pass limit left anyChanged) := by
  induction left generalizing anyChanged with
  | zero => exact preserves_bind (preserves_say _ _) fun _ => preserves_fail _
  | succ left ih =>
    refine preserves_bind hpass fun changed => ?_
    split
    · exact ih true
    · refine preserves_get_bind fun g h => ?_
      exact preserves_bind (preserves_say _ _) (fun _ => preserves_pure _) g h

theorem preserves_inferAll : Preserves WellFormed Graph.inferAll := by
  rw [inferAll_eq]
  refine preserves_bind preserves_ensureVerified fun analysis => ?_
  refine preserves_get_bind fun g h => ?_
  refine preserves_settle ?_ _ _ _ g h
  split
  · exact fun g h => h.inferLevels _
  · exact fun g h => h.inferInOrder _

/-- An inference changes nothing but flows, once the analysis is known. -/
theorem WellFormed.frame_inferAll {g : Graph} (h : g.WellFormed) :
    (Graph.inferAll.run g).state.frame =
      { g.frame with analysis := some g.references.analysis } := by
  have hpasses : ∀ (frame : Graph) (analysis : Analysis), Preserves (fun g => g.frame = frame)
      (get >>= fun g : Graph => settle
        (if g.config.parallel then Graph.inferLevels (References.groupByLevel analysis.levels)
          else Graph.inferInOrder analysis.order) g.config.maxPasses g.config.maxPasses false) := by
    intro frame analysis
    refine preserves_get_bind fun g h => ?_
    refine preserves_settle (P := fun g => g.frame = frame) ?_ _ _ _ g h
    split
    · exact fun g h => (frame_inferLevels _ g).trans h
    · exact fun g h => (frame_inferInOrder _ g).trans h
  obtain ⟨hresult, hstate⟩ := h.yields_ensureVerified
  rw [Graph.inferAll_eq, run_bind]
  rcases hrun : ensureVerified.run g with ⟨result, verified, log⟩
  rw [hrun] at hresult hstate
  obtain rfl : result = .ok g.references.analysis := hresult
  obtain rfl : verified = { g with analysis := some g.references.analysis } := hstate
  exact hpasses _ g.references.analysis _ rfl

/-- An inference keeps the settings. -/
theorem WellFormed.config_inferAll {g : Graph} (h : g.WellFormed) :
    (Graph.inferAll.run g).state.config = g.config := by
  have hframe := congrArg Graph.config h.frame_inferAll
  exact hframe

theorem WellFormed.analysis_inferAll {g : Graph} (h : g.WellFormed) :
    (Graph.inferAll.run g).state.analysis = some g.references.analysis := by
  have hframe := congrArg Graph.analysis h.frame_inferAll
  exact hframe

/-! ## Builds -/

section

variable {β : Type}

/-- The graph next to a backend is well formed. -/
def WellFormedBeside (s : Graph × β) : Prop := s.1.WellFormed

theorem preserves_onGraph {ε α : Type} {x : Op ε Graph α} (h : Preserves WellFormed x) :
    Preserves WellFormedBeside (onGraph x : Op ε (Graph × β) α) :=
  fun s hs => h s.1 hs

theorem preserves_onBackend {ε α : Type} (x : Op ε β α) :
    Preserves WellFormedBeside (onBackend x) :=
  fun _ hs => hs

theorem run_onFlow {α : Type} {g : Graph} {id : Nat} {f : Flow} (hf : g.flows[id]? = some f)
    (x : Op Failure (Flow × β) α) (b : β) :
    (onFlow id x).run (g, b) =
      ⟨(x.run (f, b)).result, (g.setFlow id (x.run (f, b)).state.1, (x.run (f, b)).state.2),
        (x.run (f, b)).log⟩ := by
  simp only [onFlow, run_bind, run_get, run_ofExcept, flow_eq_ok_iff.mpr hf, run_zoom,
    List.nil_append]

theorem preserves_onFlow {α : Type} (id : Nat) {x : Op Failure (Flow × β) α}
    (hx : ∀ f b, Relation.ReflTransGen Flow.Step f (x.run (f, b)).state.1) :
    Preserves WellFormedBeside (onFlow id x) := by
  rintro ⟨g, b⟩ h
  cases hflow : g.flow id with
  | error e =>
    simp only [onFlow, run_bind, run_get, run_ofExcept, hflow]
    exact h
  | ok f =>
    have hf := flow_eq_ok_iff.mp hflow
    have hwell : g.WellFormed := h
    obtain ⟨hreach, hinputs⟩ := (hwell.flows f (List.mem_of_getElem? hf)).steps (hx f b)
    rw [run_onFlow hf]
    exact hwell.of_derived (hwell.derived.setFlow hf hinputs hreach)

theorem preserves_editFlow {α : Type} (id : Nat) {x : Op Failure (Flow × β) α}
    (hx : ∀ f b, Relation.ReflTransGen Flow.Step f (x.run (f, b)).state.1) :
    Preserves WellFormedBeside (Graph.editFlow id x) := by
  refine preserves_bind (preserves_modify fun s h => ?_) fun _ => preserves_onFlow id hx
  refine ⟨h.sound, h.config, ?_, h.flows⟩
  rintro analysis ⟨⟩

variable [Backend β]

theorem preserves_buildForwardIn (raw : List Handle) (alignment : Nat) (ids : List Nat)
    (outputs : List (Option Handle)) :
    Preserves WellFormedBeside
      (buildForwardIn raw alignment ids outputs : Op Failure (Graph × β) _) := by
  induction ids generalizing outputs with
  | nil => exact preserves_pure _
  | cons id rest ih =>
    refine preserves_bind (preserves_onFlow id fun f b => ?_) fun output => ih _
    exact .single (.buildForward f b raw outputs alignment)

theorem preserves_buildForwardAll (raw : List Handle) :
    Preserves WellFormedBeside (Graph.buildForwardAll raw : Op Failure (Graph × β) _) := by
  refine preserves_bind (preserves_onGraph preserves_ensureVerified) fun analysis => ?_
  refine preserves_get_bind fun s h => ?_
  exact preserves_bind (preserves_buildForwardIn raw _ _ _)
    (fun outputs => preserves_ofExcept _) s h

theorem preserves_buildBackwardIn (ids : List Nat) (handed : List (Source × Handle)) :
    Preserves WellFormedBeside
      (buildBackwardIn ids handed : Op Failure (Graph × β) _) := by
  induction ids generalizing handed with
  | nil => exact preserves_pure _
  | cons id rest ih =>
    refine preserves_get_bind fun s h => ?_
    refine preserves_ofExcept_bind (fun f _ => ?_) s h
    split
    · exact preserves_fail _
    · refine preserves_bind (preserves_onBackend _) fun entering => ?_
      refine preserves_bind (preserves_onFlow id fun f b => ?_) fun gradients => ih _
      exact .single (.buildBackward f b entering)

theorem preserves_buildBackwardAll :
    Preserves WellFormedBeside (Graph.buildBackwardAll : Op Failure (Graph × β) _) := by
  refine preserves_bind (preserves_onGraph preserves_ensureVerified) fun analysis => ?_
  refine preserves_bind (preserves_buildBackwardIn _ []) fun handed => ?_
  refine preserves_get_bind fun s h => ?_
  exact preserves_onBackend _ s h

theorem preserves_buildAll (raw : List Handle) :
    Preserves WellFormedBeside (Graph.buildAll raw : Op Failure (Graph × β) _) := by
  refine preserves_bind (preserves_onGraph preserves_inferAll) fun _ => ?_
  refine preserves_bind (preserves_buildForwardAll raw) fun outputs => ?_
  refine preserves_bind preserves_buildBackwardAll fun gradients => ?_
  refine preserves_get_bind fun s h => ?_
  exact preserves_bind (preserves_say _ _) (fun _ => preserves_pure _) s h

end

theorem WellFormed.step {g g' : Graph} (h : g.WellFormed) (hstep : Step g g') :
    g'.WellFormed := by
  cases hstep with
  | addRawInput _ shape => exact preserves_addRawInput shape g h
  | setRawInput _ slot shape => exact preserves_setRawInput slot shape g h
  | setConfig _ config => exact preserves_setConfig config g h
  | addFlow _ hf => exact preserves_addFlow hf g h
  | insertFlow _ index hf => exact preserves_insertFlow index hf g h
  | removeFlow _ id => exact preserves_removeFlow id g h
  | duplicateFlow _ id => exact preserves_duplicateFlow id g h
  | addInputSource _ id source => exact preserves_addInputSource id source g h
  | removeInputSource _ id index => exact preserves_removeInputSource id index g h
  | verify => exact preserves_verify g h
  | inferAll => exact preserves_inferAll g h
  | buildForwardAll _ b raw => exact preserves_buildForwardAll raw (g, b) h
  | buildBackwardAll _ b => exact preserves_buildBackwardAll (g, b) h
  | buildAll _ b raw => exact preserves_buildAll raw (g, b) h
  | editFlow _ b id x hx => exact preserves_editFlow id hx (g, b) h

/-! ## Graphs that are read or made anew -/

/-- A record becomes a graph, with its raw inputs and its flows as they are, exactly if its version is
current, the settings are valid and the document is sound. -/
theorem ofRecord_eq_ok_iff {r : Record} {config : Config} {g : Graph} :
    ofRecord r config = .ok g ↔ r.version = Record.currentVersion ∧ config.Valid ∧
      Sound r.rawInputs.length r.flows ∧ g = ⟨r.flows, r.rawInputs, config, none⟩ := by
  rw [ofRecord]
  split
  · next hversion =>
    simp only [hversion, true_and, ofParts, Traversal.bind_eq_ok_iff, Traversal.pure_eq_ok_iff]
    constructor
    · rintro ⟨checked, hchecked, _, hsound, rfl⟩
      obtain ⟨hvalid, rfl⟩ := Config.check_eq_ok_iff.mp hchecked
      exact ⟨hvalid, checkStructure_eq_ok_iff_sound.mp hsound, rfl⟩
    · rintro ⟨hvalid, hsound, rfl⟩
      exact ⟨config, Config.check_eq_ok_iff.mpr ⟨hvalid, rfl⟩, (),
        checkStructure_eq_ok_iff_sound.mpr hsound, rfl⟩
  · next hversion => simp [hversion]

theorem wellFormed_ofRecord {r : Record} {config : Config} {g : Graph}
    (hflows : ∀ f ∈ r.flows, f.Reachable) (h : Graph.ofRecord r config = .ok g) :
    g.WellFormed := by
  obtain ⟨-, hvalid, hsound, rfl⟩ := ofRecord_eq_ok_iff.mp h
  refine ⟨hsound, hvalid, ?_, hflows⟩
  rintro analysis ⟨⟩

/-- A flow that is read has no history. -/
theorem exists_fresh_of_decode {v : Json} {f : Flow} (h : Document.decode? v = some f) :
    ∃ label inputs layers, f = .fresh label inputs layers := by
  obtain ⟨fields, -, h⟩ := Option.bind_eq_some_iff.mp h
  split at h
  · obtain ⟨label, -, h⟩ := Option.bind_eq_some_iff.mp h
    obtain ⟨layers, -, h⟩ := Option.bind_eq_some_iff.mp h
    obtain ⟨inputs, -, h⟩ := Option.bind_eq_some_iff.mp h
    cases h
    exact ⟨label, inputs, layers, rfl⟩
  · cases h

theorem exists_fresh_of_mem_mapM {items : List Json} {flows : List Flow}
    (h : items.mapM Document.decode? = some flows) :
    ∀ f ∈ flows, ∃ label inputs layers, f = .fresh label inputs layers := by
  induction items generalizing flows with
  | nil =>
    cases h
    simp
  | cons item items ih =>
    rw [List.mapM_cons] at h
    obtain ⟨first, hfirst, h⟩ := Option.bind_eq_some_iff.mp h
    obtain ⟨rest, hrest, h⟩ := Option.bind_eq_some_iff.mp h
    cases h
    exact List.forall_mem_cons.mpr ⟨exists_fresh_of_decode hfirst, ih hrest⟩

theorem exists_fresh_of_decode_record {v : Json} {r : Record} (h : Document.decode? v = some r) :
    ∀ f ∈ r.flows, ∃ label inputs layers, f = .fresh label inputs layers := by
  obtain ⟨fields, -, h⟩ := Option.bind_eq_some_iff.mp h
  split at h
  · obtain ⟨version, -, h⟩ := Option.bind_eq_some_iff.mp h
    obtain ⟨rawInputs, -, h⟩ := Option.bind_eq_some_iff.mp h
    obtain ⟨flows, hflows, h⟩ := Option.bind_eq_some_iff.mp h
    cases h
    obtain ⟨w, -, hw⟩ := Option.bind_eq_some_iff.mp hflows
    rw [Document.decode?] at hw
    cases w with
    | list items => exact exists_fresh_of_mem_mapM hw
    | _ => cases hw
  · cases h

/-- A graph that is read from a text is that of a record whose flows have no history. -/
theorem exists_record_of_ofText {text : String} {config : Config} {g : Graph}
    (h : Graph.ofText text config = .ok g) : ∃ r : Record, Graph.ofRecord r config = .ok g ∧
      ∀ f ∈ r.flows, ∃ label inputs layers, f = .fresh label inputs layers := by
  rw [Graph.ofText] at h
  split at h
  · next r hr =>
    obtain ⟨v, -, hv⟩ := Option.bind_eq_some_iff.mp hr
    exact ⟨r, h, exists_fresh_of_decode_record hv⟩
  · cases h

theorem wellFormed_ofText {text : String} {config : Config} {g : Graph}
    (h : Graph.ofText text config = .ok g) : g.WellFormed := by
  obtain ⟨r, hrecord, hfresh⟩ := exists_record_of_ofText h
  refine wellFormed_ofRecord (fun f hf => ?_) hrecord
  obtain ⟨label, inputs, layers, rfl⟩ := hfresh f hf
  exact .fresh label inputs layers

theorem wellFormed_empty {processors : Nat} (h : 1 ≤ processors) :
    (Graph.empty processors).WellFormed where
  sound := sound_nil
  config := Config.valid_default h
  analysis := by rintro analysis ⟨⟩
  flows := by simp [Graph.empty]

/-- Whatever happened to a graph, it is well formed. -/
theorem Reachable.wellFormed {g : Graph} (h : g.Reachable) : g.WellFormed := by
  induction h with
  | empty hprocessors => exact wellFormed_empty hprocessors
  | withConfig hconfig =>
    obtain ⟨checked, hchecked, hg⟩ := Traversal.bind_eq_ok_iff.mp hconfig
    obtain ⟨hvalid, rfl⟩ := Config.check_eq_ok_iff.mp hchecked
    obtain rfl := Traversal.pure_eq_ok_iff.mp hg
    have hempty := wellFormed_empty (Nat.le_refl 1)
    exact ⟨sound_nil, hvalid, hempty.analysis, hempty.flows⟩
  | ofText htext => exact wellFormed_ofText htext
  | ofRecord hflows hrecord => exact wellFormed_ofRecord hflows hrecord
  | step hreach hstep ih => exact ih.step hstep

/-- A sound document is read from its record, and then verified. -/
theorem Sound.reachable_verified {rawInputs : List Shape} {flows : List Flow}
    (h : Sound rawInputs.length flows) (hflows : ∀ f ∈ flows, f.Reachable) :
    Reachable ⟨flows, rawInputs, .default, some (referencesOf flows).analysis⟩ := by
  have hread : Graph.ofRecord ⟨1, rawInputs, flows⟩ .default =
      .ok ⟨flows, rawInputs, .default, none⟩ :=
    ofRecord_eq_ok_iff.mpr ⟨rfl, Config.valid_default (Nat.le_refl 1), h, rfl⟩
  have hbare : Reachable ⟨flows, rawInputs, .default, none⟩ := .ofRecord hflows hread
  have hstep := hbare.step (.verify _)
  rwa [hbare.wellFormed.sound.yields_verify.2] at hstep

/-! ## A document with a shared flow -/

/-- A document in which two flows read a third one and a fourth reads both of them, with its
analysis. -/
def diamond : Graph where
  flows := [.fresh "trunk" [.raw 0] [.softMax ⟨.softMax⟩],
    .fresh "left" [.flow 0] [],
    .fresh "right" [.flow 0] [.softMax ⟨.logSoftMax⟩],
    .fresh "join" [.flow 1, .flow 2] [.softMax ⟨.softMax⟩]]
  rawInputs := [⟨4, 4, 3, 1⟩]
  config := .default
  analysis := some ⟨[0], [3], [0, 1, 2, 3], [0, 1, 1, 2]⟩

theorem sound_diamond : Sound 1 diamond.flows := sound_of_earlier (by decide)

theorem reachable_diamond : diamond.Reachable := by
  have hsound : Sound diamond.rawInputs.length diamond.flows := sound_diamond
  refine hsound.reachable_verified fun f hf => ?_
  simp only [diamond, List.mem_cons, List.not_mem_nil, or_false] at hf
  rcases hf with rfl | rfl | rfl | rfl <;> exact .fresh _ _ _

/-! ## The promise of a document -/

/-- Whether the flow `reader` has the flow `source` among its sources. -/
def ReadsFlow (g : Graph) (reader source : Nat) : Prop :=
  ∃ f, g.flows[reader]? = some f ∧ Source.flow source ∈ f.inputs

/-- Whatever happened to a graph, also if it failed half-way: every slot and every flow that a
source names exists, no flow reaches itself through the flows it reads, and the settings would
be accepted again as they are. -/
theorem reachable_inOrder {g : Graph} (h : g.Reachable) :
    (∀ f ∈ g.flows, ∀ slot, .raw slot ∈ f.inputs → slot < g.rawInputs.length) ∧
    (∀ f ∈ g.flows, ∀ id, .flow id ∈ f.inputs → id < g.flows.length) ∧
    (∀ id, ¬ Relation.TransGen g.ReadsFlow id id) ∧
    g.config.check = .ok g.config := by
  have hwell := h.wellFormed
  refine ⟨fun f hf slot hslot => hwell.sound.sources f hf _ hslot,
    fun f hf id hid => hwell.sound.sources f hf _ hid, fun id hcycle => ?_,
    Config.check_eq_ok_iff.mpr ⟨hwell.config, rfl⟩⟩
  apply hwell.sound.acyclic id
  exact Relation.TransGen.mono (fun _ _ hread => reads_iff.mpr hread) id id hcycle

/-- Once the shared flow of the document is removed, two flows without sources are left, and one
that reads both of them. -/
theorem reachable_inOrder_trimmed :
    let g := ((removeFlow 0).run diamond).state
    g.flows.map Flow.inputs = [[], [], [.flow 0, .flow 1]] ∧
      (∀ f ∈ g.flows, ∀ id, .flow id ∈ f.inputs → id < g.flows.length) ∧
      (∀ id, ¬ Relation.TransGen g.ReadsFlow id id) ∧ g.config.check = .ok g.config := by
  have hreach := reachable_diamond.step (.removeFlow diamond 0)
  exact ⟨by decide +kernel, (reachable_inOrder hreach).2⟩

end LayerFlow.Graph
