/-
LayerFlow.Proofs.Graph.Resolved

Which shapes of a document are known once they are inferred: those that rest on known raw inputs.
From level to level a flow has a known input, and a known output, exactly if all its sources are
known.  Where something unknown comes in, the layers are not even looked at.

Main statement: `resolved_iff_restsOnKnown`.
-/
import LayerFlow.Proofs.Flow.Resolved
import LayerFlow.Proofs.Graph.Renumbering

namespace LayerFlow.Graph

open Op Traversal

/-! ## Raw inputs below a flow -/

/-- Whether a raw input is read by a flow or by one that the flow reads, directly or through
others. -/
def ReachesRaw (g : Graph) (id slot : Nat) : Prop :=
  ∃ reader f, Relation.ReflTransGen g.ReadsFlow id reader ∧ g.flows[reader]? = some f ∧
    .raw slot ∈ f.inputs

/-- Whether a slot holds a known shape. -/
def RawKnown (g : Graph) (slot : Nat) : Prop :=
  ∃ shape, g.rawInputs[slot]? = some shape ∧ shape.isResolved = true

/-- Whether every raw input below a flow has a known shape. -/
def RestsOnKnown (g : Graph) (id : Nat) : Prop := ∀ slot, g.ReachesRaw id slot → g.RawKnown slot

/-- Whether a source is a known raw input or a flow that rests on such. -/
def SourceKnown (g : Graph) : Source → Prop
  | .raw slot => g.RawKnown slot
  | .flow id => g.RestsOnKnown id

section

variable {g : Graph} {id : Nat} {f : Flow}

/-- The raw inputs below a flow are those that it reads and those below the flows that it reads. -/
theorem restsOnKnown_iff (hf : g.flows[id]? = some f) :
    g.RestsOnKnown id ↔ ∀ s ∈ f.inputs, g.SourceKnown s := by
  constructor
  · intro h s hs
    cases s with
    | raw slot => exact h slot ⟨id, f, .refl, hf, hs⟩
    | flow source =>
      rintro slot ⟨reader, f', hreach, hf', hslot⟩
      exact h slot ⟨reader, f', .head ⟨f, hf, hs⟩ hreach, hf', hslot⟩
  · rintro h slot ⟨reader, f', hreach, hf', hslot⟩
    rcases hreach.cases_head with rfl | ⟨source, ⟨_, hread, hsource⟩, hreach⟩
    · obtain rfl := Option.some.inj (hf.symm.trans hf')
      exact h (.raw slot) hslot
    · obtain rfl := Option.some.inj (hf.symm.trans hread)
      exact h (.flow source) hsource slot ⟨reader, f', hreach, hf', hslot⟩

/-! ## Shapes that the document gives -/

/-- What the document gives to a flow: its sources have shapes, these fit together, and the layers
fit what they make. -/
theorem eval_eq_ok_iff (hsound : Sound g.rawInputs.length g.flows) (hf : g.flows[id]? = some f)
    {shapes : FlowShapes} : g.eval id = .ok shapes ↔
      f.inputs ≠ [] ∧ f.inputs.mapM (g.sourceShape g.eval) = .ok shapes.sources ∧
        Shape.combine shapes.sources = .ok shapes.input ∧
        Flow.chain f.layers shapes.input = .ok (shapes.layerInputs, shapes.output) := by
  rw [eval_eq hsound hf]
  refine ⟨fun h => Flow.evaluate_eq_ok_iff.mp (Flow.evaluate_of_denote h), fun h => ?_⟩
  have hevaluate := Flow.evaluate_eq_ok_iff.mpr h
  rw [Flow.evaluate_of_mapM h.1 h.2.1] at hevaluate
  exact Flow.denote_eq_ok_iff.mpr ⟨h.1, shapes.sources, h.2.1, hevaluate⟩

/-- A flow has a known input, and a known output, exactly if it rests on known raw inputs. -/
theorem eval_isResolved_iff (hsound : Sound g.rawInputs.length g.flows)
    (hscales : ∀ f ∈ g.flows, ∀ l ∈ f.layers, l.ScalesFit) (hf : g.flows[id]? = some f)
    {shapes : FlowShapes} (heval : g.eval id = .ok shapes) :
    (shapes.input.isResolved = true ↔ g.RestsOnKnown id) ∧
      (shapes.output.isResolved = true ↔ g.RestsOnKnown id) := by
  induction hlevel : g.references.level id using Nat.strong_induction_on
    generalizing id f shapes with
  | _ level ih =>
    obtain ⟨hne, hsources, hcombine, hchain⟩ := (eval_eq_ok_iff hsound hf).mp heval
    have hknown : ∀ s ∈ f.inputs, ∀ shape, g.sourceShape g.eval s = .ok shape →
        (shape.isResolved = true ↔ g.SourceKnown s) := by
      intro s hs shape hshape
      cases s with
      | raw slot =>
        have hslot := sourceShape_raw_eq_ok_iff.mp hshape
        simp [SourceKnown, RawKnown, hslot]
      | flow source =>
        obtain ⟨found, hfound, rfl⟩ := sourceShape_flow_eq_ok_iff.mp hshape
        have hexists : source < g.size := hsound.sources f (List.mem_of_getElem? hf) _ hs
        -- A source lies on a lower level.
        have hlower := References.level_lt_of_reads hsound.acyclic_references
          hsound.inRange_references (reads_iff.mpr ⟨f, hf, hs⟩)
        rw [hlevel] at hlower
        exact (ih _ hlower (List.getElem?_eq_getElem hexists) hfound rfl).2
    have hlength := length_of_mapM_eq_ok hsources
    have hsome : shapes.sources ≠ [] := by
      rintro hnil
      rw [hnil] at hlength
      exact hne (List.length_eq_zero_iff.mp hlength.symm)
    have hinput : shapes.input.isResolved = true ↔ g.RestsOnKnown id := by
      rw [Shape.isResolved_combine_iff hsome hcombine, restsOnKnown_iff hf]
      exact forall_mem_mapM_iff hsources hknown
    rw [Flow.isResolved_chain (hscales f (List.mem_of_getElem? hf)) hchain]
    exact ⟨hinput, hinput⟩

end

/-! ## Layers that are not looked at -/

/-- Graphs with the same raw inputs and the same sources, whose flows also have the same layers;
those that do not rest on known raw inputs may have any other layers instead of theirs. -/
structure Reworked (g other : Graph) : Prop where
  rawInputs : other.rawInputs = g.rawInputs
  size : other.size = g.size
  flows : ∀ id f f', g.flows[id]? = some f → other.flows[id]? = some f' → f'.inputs = f.inputs ∧
    (f'.layers = f.layers ∨ ¬ g.RestsOnKnown id ∧ f.layers ≠ [] ∧ f'.layers ≠ [])

section

variable {g other : Graph}

theorem Reworked.exists_flow (h : Reworked g other) {id : Nat} {f : Flow}
    (hf : g.flows[id]? = some f) : ∃ f', other.flows[id]? = some f' := by
  have hid : id < other.size := by
    rw [h.size]
    exact (List.getElem?_eq_some_iff.mp hf).1
  exact ⟨_, List.getElem?_eq_getElem hid⟩

/-- A chain that starts with something unknown ends with nothing known, if it has a layer. -/
theorem exists_chain_of_unresolved {layers : List Layer} (hne : layers ≠ []) {input : Shape}
    (h : input.isResolved = false) :
    ∃ inputs, Flow.chain layers input = .ok (inputs, .unresolved) := by
  obtain ⟨l, rest, rfl⟩ := List.exists_cons_of_ne_nil hne
  exact ⟨_, Flow.chain_of_unresolved l rest h⟩

theorem eval_output_of_unresolved (hsound : Sound g.rawInputs.length g.flows) {id : Nat} {f : Flow}
    (hf : g.flows[id]? = some f) (hne : f.layers ≠ []) {shapes : FlowShapes}
    (heval : g.eval id = .ok shapes) (hinput : shapes.input.isResolved = false) :
    shapes.output = .unresolved := by
  obtain ⟨-, -, -, hchain⟩ := (eval_eq_ok_iff hsound hf).mp heval
  obtain ⟨inputs, hunknown⟩ := exists_chain_of_unresolved hne hinput
  exact congrArg Prod.snd (Except.ok.inj (hchain.symm.trans hunknown))

/-- With other layers where nothing is known, every flow has the same input and the same output. -/
theorem Reworked.eval (h : Reworked g other) (hsound : Sound g.rawInputs.length g.flows)
    (hsound' : Sound other.rawInputs.length other.flows)
    (hscales : ∀ f ∈ g.flows, ∀ l ∈ f.layers, l.ScalesFit) {id : Nat} {f : Flow}
    (hf : g.flows[id]? = some f) {shapes : FlowShapes} (heval : g.eval id = .ok shapes) :
    ∃ shapes', other.eval id = .ok shapes' ∧ shapes'.input = shapes.input ∧
      shapes'.output = shapes.output := by
  induction hlevel : g.references.level id using Nat.strong_induction_on
    generalizing id f shapes with
  | _ level ih =>
    obtain ⟨f', hf'⟩ := h.exists_flow hf
    obtain ⟨hinputs, hlayers⟩ := h.flows id f f' hf hf'
    obtain ⟨hne, hsources, hcombine, hchain⟩ := (eval_eq_ok_iff hsound hf).mp heval
    have hsame : ∀ s ∈ f.inputs, other.sourceShape other.eval s = g.sourceShape g.eval s := by
      intro s hs
      obtain ⟨shape, -, hshape⟩ := exists_mem_of_mapM hsources hs
      rw [hshape]
      cases s with
      | raw slot =>
        rw [sourceShape_raw_eq_ok_iff] at hshape ⊢
        rwa [h.rawInputs]
      | flow source =>
        obtain ⟨found, hfound, rfl⟩ := sourceShape_flow_eq_ok_iff.mp hshape
        have hexists : source < g.size := hsound.sources f (List.mem_of_getElem? hf) _ hs
        have hlower := References.level_lt_of_reads hsound.acyclic_references
          hsound.inRange_references (reads_iff.mpr ⟨f, hf, hs⟩)
        rw [hlevel] at hlower
        obtain ⟨shapes', hshapes', -, houtput⟩ :=
          ih _ hlower (List.getElem?_eq_getElem hexists) hfound rfl
        exact sourceShape_flow_eq_ok_iff.mpr ⟨shapes', hshapes', houtput⟩
    rw [← hinputs] at hne
    rw [← mapM_congr hsame, ← hinputs] at hsources
    rcases hlayers with hlayers | ⟨htainted, hlayered, hlayered'⟩
    · rw [← hlayers] at hchain
      exact ⟨shapes, (eval_eq_ok_iff hsound' hf').mpr ⟨hne, hsources, hcombine, hchain⟩, rfl, rfl⟩
    · have hinput : shapes.input.isResolved = false := by
        rw [← Bool.not_eq_true, (eval_isResolved_iff hsound hscales hf heval).1]
        exact htainted
      obtain ⟨layerInputs, hchain'⟩ := exists_chain_of_unresolved hlayered' hinput
      refine ⟨⟨shapes.sources, layerInputs, shapes.input, .unresolved⟩,
        (eval_eq_ok_iff hsound' hf').mpr ⟨hne, hsources, hcombine, hchain'⟩, rfl, ?_⟩
      exact (eval_output_of_unresolved hsound hf hlayered heval hinput).symm

end

/-! ## After an inference -/

/-- Known are, once an inference has succeeded, exactly the shapes that rest on known raw inputs:
the input of a flow and its output are known if and only if all raw inputs are that the flow reads,
directly or through others.  A flow for which they are not, and that has a layer, has the output
that stands for nothing known; and its layers have not been looked at: with any other layers instead
the inference succeeds as well, and finds the same inputs and outputs for all flows. -/
theorem resolved_iff_restsOnKnown {g g' : Graph} {changed : Bool} (h : g.Reachable)
    (hscales : ∀ f ∈ g.flows, ∀ l ∈ f.layers, l.ScalesFit)
    (hrun : inferAll.Yields g changed g') :
    (∀ (id : Nat) (f : Flow), g'.flows[id]? = some f →
      (f.shapes.input.isResolved = true ↔ g.RestsOnKnown id) ∧
      (f.shapes.output.isResolved = true ↔ g.RestsOnKnown id) ∧
      (¬ g.RestsOnKnown id → f.layers ≠ [] → f.shapes.output = .unresolved)) ∧
    ∀ other : Graph, other.Reachable → Reworked g other → ∃ changed' other',
      inferAll.Yields other changed' other' ∧
      ∀ (id : Nat) (f : Flow), g'.flows[id]? = some f → ∃ f', other'.flows[id]? = some f' ∧
        f'.shapes.input = f.shapes.input ∧ f'.shapes.output = f.shapes.output := by
  have hsound := h.wellFormed.sound
  have hsettled := h.wellFormed.inferable.settled hrun
  refine ⟨fun id f' hf' => ?_, fun other hother hreworked => ?_⟩
  · obtain ⟨f, shapes, hf, heval, rfl⟩ := hsettled.exists_flow hf'
    obtain ⟨hinput, houtput⟩ := eval_isResolved_iff hsound hscales hf heval
    refine ⟨hinput, houtput, fun htainted hne => ?_⟩
    rw [← hinput, Bool.not_eq_true] at htainted
    exact eval_output_of_unresolved hsound hf hne heval htainted
  · have hsound' := hother.wellFormed.sound
    have hall : ∀ id < other.size, ∃ shapes, other.eval id = .ok shapes := by
      intro id hid
      obtain ⟨f, hf⟩ := getElem?_of_lt_size (hreworked.size ▸ hid)
      obtain ⟨shapes, heval, -⟩ := hsettled.flow hf
      obtain ⟨shapes', heval', -⟩ := hreworked.eval hsound hsound' hscales hf heval
      exact ⟨shapes', heval'⟩
    obtain ⟨changed', other', hrun'⟩ := hother.wellFormed.inferable.yields_of_eval hall
    refine ⟨changed', other', hrun', fun id f' hf' => ?_⟩
    have hsettled' := hother.wellFormed.inferable.settled hrun'
    obtain ⟨f, shapes, hf, heval, rfl⟩ := hsettled.exists_flow hf'
    obtain ⟨shapes', heval', hsame⟩ := hreworked.eval hsound hsound' hscales hf heval
    obtain ⟨old, hold⟩ := hreworked.exists_flow hf
    obtain ⟨found, hfound, hstored⟩ := hsettled'.flow hold
    rw [heval'] at hfound
    cases hfound
    exact ⟨_, hstored, hsame⟩

/-- A document with one known raw input and one that is not known: a flow reads each of them, and a
third one reads both. -/
def clouded (layers : List Layer) : Graph where
  flows := [.fresh "clear" [.raw 0] [.softMax ⟨.softMax⟩],
    .fresh "clouded" [.raw 1] layers,
    .fresh "join" [.flow 0, .flow 1] []]
  rawInputs := [⟨4, 4, 3, 1⟩, .unresolved]
  config := .default
  analysis := some ⟨[0, 1], [2], [0, 1, 2], [0, 0, 1]⟩

theorem reachable_clouded (layers : List Layer) : (clouded layers).Reachable := by
  have hsound : Sound 2 (clouded []).flows := sound_of_earlier (by decide)
  have hlayered : Sound (clouded layers).rawInputs.length (clouded layers).flows := hsound.congr rfl
  refine hlayered.reachable_verified fun f hf => ?_
  simp only [clouded, List.mem_cons, List.not_mem_nil, or_false] at hf
  rcases hf with rfl | rfl | rfl <;> exact .fresh _ _ _

/-- A layer without output units goes unnoticed on the unknown raw input, as any other would; what
reads the flow is not known either, while the other flow is. -/
theorem resolved_iff_restsOnKnown_clouded :
    let g := clouded [.fullyConnected ⟨0, true⟩]
    (inferAll.run g).state.flows.map (fun f => f.shapes.output) =
      [⟨4, 4, 3, 1⟩, .unresolved, .unresolved] ∧
    g.RestsOnKnown 0 ∧ ¬ g.RestsOnKnown 1 ∧ ¬ g.RestsOnKnown 2 ∧
    ∃ changed other, inferAll.Yields (clouded [.softMax ⟨.softMax⟩]) changed other := by
  intro g
  have hrun : inferAll.Yields g true (inferAll.run g).state := ⟨rfl, rfl⟩
  obtain ⟨hflows, hother⟩ := resolved_iff_restsOnKnown (reachable_clouded _) (by decide) hrun
  have houtputs : (inferAll.run g).state.flows.map (fun f => f.shapes.output) =
      [⟨4, 4, 3, 1⟩, .unresolved, .unresolved] := by decide +kernel
  have hknown : ∀ (id : Nat) (shape : Shape),
      [⟨4, 4, 3, 1⟩, .unresolved, .unresolved][id]? = some shape →
      (shape.isResolved = true ↔ g.RestsOnKnown id) := by
    intro id shape hshape
    rw [← houtputs, List.getElem?_map] at hshape
    obtain ⟨f, hf, rfl⟩ := Option.map_eq_some_iff.mp hshape
    exact (hflows id f hf).2.1
  have hclouded : ¬ g.RestsOnKnown 1 := fun h => absurd ((hknown 1 _ rfl).mpr h) (by decide)
  have hjoin : ¬ g.RestsOnKnown 2 := fun h => absurd ((hknown 2 _ rfl).mpr h) (by decide)
  have hreworked : Reworked g (clouded [.softMax ⟨.softMax⟩]) := by
    refine ⟨rfl, rfl, fun id f f' hf hf' => ?_⟩
    match id with
    | 0 | 2 =>
      cases hf
      cases hf'
      exact ⟨rfl, .inl rfl⟩
    | 1 =>
      cases hf
      cases hf'
      exact ⟨rfl, .inr ⟨hclouded, by decide, by decide⟩⟩
  obtain ⟨changed, other, hyields, -⟩ := hother _ (reachable_clouded _) hreworked
  exact ⟨houtputs, (hknown 0 _ rfl).mp rfl, hclouded, hjoin, changed, other, hyields⟩

end LayerFlow.Graph
