/-
LayerFlow.Proofs.Graph.Evaluation

The shapes along each flow as the document alone tells them.  They are found by recursion along
the references, without a look at what any flow has stored: the shapes of the sources, their
combination, and what the layers make of it one after the other.

Main statements: `eval_eq`, the recursion unfolds at every flow of a sound document, and
`infer_result`, an inference of a flow whose sources hold their evaluated shapes finds the
evaluated shapes of the flow, or fails as the evaluation does.
-/
import LayerFlow.Graph.Inference
import LayerFlow.Proofs.Flow.Faults
import LayerFlow.Proofs.Flow.Shapes
import LayerFlow.Proofs.Graph.Structure
import LayerFlow.Proofs.Operation
import LayerFlow.Proofs.References.Order

namespace LayerFlow

open Op Traversal

/-! ## Evaluating a document -/

namespace Flow

/-- The shapes along a chain of layers that is fed by sources of given shapes. -/
def shapesFrom (layers : List Layer) (sources : List Shape) : Except Failure FlowShapes := do
  let input ← Shape.combine sources
  let (layerInputs, output) ← chain layers input
  return ⟨sources, layerInputs, input, output⟩

/-- The shapes along a flow with given shapes of its sources.  A flow that reads nothing has no
shapes, and the failure of a layer names the flow. -/
def denote (f : Flow) (shapeOf : Resolver) : Except Failure FlowShapes :=
  if f.inputs = [] then .error (.noInputs f.label)
  else do
    let sources ← f.inputs.mapM shapeOf
    (shapesFrom f.layers sources).mapError (Failure.inFlow f.label)

theorem evaluate_of_mapM {f : Flow} {resolve : Resolver} {sources : List Shape}
    (hne : f.inputs ≠ []) (h : f.inputs.mapM resolve = .ok sources) :
    f.evaluate resolve = shapesFrom f.layers sources := by
  have hempty : f.inputs.isEmpty = false := by simpa using hne
  rw [evaluate, inputShapes, shapesFrom, hempty, if_neg Bool.false_ne_true, h]
  simp only [bind, Except.bind]
  cases Shape.combine sources <;> rfl

theorem evaluate_of_inputs_eq_nil {f : Flow} (resolve : Resolver) (h : f.inputs = []) :
    f.evaluate resolve = .error (.noInputs f.label) := by
  rw [evaluate, inputShapes, h]
  rfl

/-- The shapes that the document gives to a flow are those that an inference finds. -/
theorem evaluate_of_denote {f : Flow} {shapeOf : Resolver} {shapes : FlowShapes}
    (h : f.denote shapeOf = .ok shapes) : f.evaluate shapeOf = .ok shapes := by
  rw [denote] at h
  split at h
  · cases h
  next hne =>
  obtain ⟨sources, hsources, hnamed⟩ := bind_eq_ok_iff.mp h
  rw [evaluate_of_mapM hne hsources]
  exact mapError_eq_ok_iff.mp hnamed

/-- The failures that name a flow: it reads nothing, or one of its layers has no output shape. -/
def Names (f : Flow) (e : Failure) : Prop :=
  e = .noInputs f.label ∨ ∃ l ∈ f.layers, ∃ fault, e = .shape (f.label ++ "/" ++ l.name) fault

/-- A flow has no shapes because one of its sources has none, or for a reason that names it, unless
a number is too large. -/
theorem denote_error {f : Flow} {shapeOf : Resolver} {e : Failure}
    (h : f.denote shapeOf = .error e) :
    e = .overflow ∨ f.Names e ∨ ∃ s ∈ f.inputs, shapeOf s = .error e := by
  rw [denote] at h
  split at h
  · cases h
    exact .inr (.inl (.inl rfl))
  rcases bind_eq_error_iff.mp h with hsource | ⟨sources, -, hnamed⟩
  · exact .inr (.inr (exists_of_mapM_eq_error hsource))
  rcases hshapes : shapesFrom f.layers sources with e' | shapes
  · rw [hshapes] at hnamed
    cases hnamed
    rcases bind_eq_error_iff.mp hshapes with hcombine | ⟨input, -, hmore⟩
    · rw [Shape.overflowsOnly_combine sources e' hcombine]
      exact .inl rfl
    rcases bind_eq_error_iff.mp hmore with hchain | ⟨found, -, hdone⟩
    · rcases chain_error hchain with rfl | ⟨l, hl, fault, rfl⟩
      · exact .inl rfl
      · exact .inr (.inl (.inr ⟨l, hl, fault, rfl⟩))
    · cases hdone
  · rw [hshapes] at hnamed
    cases hnamed

/-- Flows are equal once builds and shapes are forgotten if nothing else tells them apart. -/
theorem clear_eq_clear_iff {f f' : Flow} :
    f'.clear = f.clear ↔ f'.label = f.label ∧ f'.inputs = f.inputs ∧ f'.layers = f.layers := by
  simp [clear]

end Flow

namespace Graph

/-- The shape of a source, given those along the flows: a raw input has the shape of its slot, a
flow that of its output. -/
def sourceShape (g : Graph) (shapesOf : Nat → Except Failure FlowShapes) : Flow.Resolver
  | .raw slot =>
    match g.rawInputs[slot]? with
    | some shape => .ok shape
    | none => .error (.badSource (.missingRaw slot))
  | .flow id => (shapesOf id).map FlowShapes.output

theorem sourceShape_raw_eq_ok_iff {g : Graph} {shapesOf : Nat → Except Failure FlowShapes}
    {slot : Nat} {shape : Shape} :
    g.sourceShape shapesOf (.raw slot) = .ok shape ↔ g.rawInputs[slot]? = some shape := by
  rw [sourceShape]
  cases g.rawInputs[slot]? <;> simp

theorem sourceShape_flow_eq_ok_iff {g : Graph} {shapesOf : Nat → Except Failure FlowShapes}
    {id : Nat} {shape : Shape} : g.sourceShape shapesOf (.flow id) = .ok shape ↔
      ∃ shapes, shapesOf id = .ok shapes ∧ shapes.output = shape := by
  rw [sourceShape]
  cases shapesOf id <;> simp [Except.map]

/-- The shapes along a flow, found by following references over a limited number of flows. -/
def evalWithin (g : Graph) : (depth id : Nat) → Except Failure FlowShapes
  | 0, id => .error (.flowNotFound id)
  | depth + 1, id =>
    match g.flows[id]? with
    | none => .error (.flowNotFound id)
    | some f => f.denote (g.sourceShape (g.evalWithin depth))

/-- The shapes along a flow.  No chain of references goes through more flows than there are. -/
def eval (g : Graph) (id : Nat) : Except Failure FlowShapes := g.evalWithin g.size id

/-- Evaluation does not depend on the limit, as long as it exceeds the level of the flow. -/
theorem evalWithin_eq {g : Graph} (hsound : Sound g.rawInputs.length g.flows)
    {depth depth' id : Nat} (h : g.references.level id < depth)
    (h' : g.references.level id < depth') : g.evalWithin depth id = g.evalWithin depth' id := by
  induction depth generalizing depth' id with
  | zero => omega
  | succ depth ih =>
    cases depth' with
    | zero => omega
    | succ depth' =>
      unfold evalWithin
      cases hf : g.flows[id]? with
      | none => rfl
      | some f =>
        have hsources : f.inputs.mapM (g.sourceShape (g.evalWithin depth)) =
            f.inputs.mapM (g.sourceShape (g.evalWithin depth')) := by
          apply mapM_congr
          intro s hs
          cases s with
          | raw slot => rfl
          | flow source =>
            -- What a flow reads lies on a lower level.
            have hread : g.references.Reads id source := reads_iff.mpr ⟨f, hf, hs⟩
            have hlevel := References.level_lt_of_reads hsound.acyclic_references
              hsound.inRange_references hread
            have heq : g.evalWithin depth source = g.evalWithin depth' source :=
              ih (by omega) (by omega)
            exact congrArg (Except.map FlowShapes.output) heq
        dsimp only
        unfold Flow.denote
        rw [hsources]

/-- Evaluation looks at the raw inputs and at what each flow makes of its sources, at nothing
else. -/
theorem evalWithin_congr {g g' : Graph} (hraw : g'.rawInputs = g.rawInputs)
    (hflows : ∀ (id : Nat) (shapeOf : Flow.Resolver),
      g'.flows[id]?.map (Flow.denote · shapeOf) = g.flows[id]?.map (Flow.denote · shapeOf))
    (depth id : Nat) :
    g'.evalWithin depth id = g.evalWithin depth id := by
  induction depth generalizing id with
  | zero => rfl
  | succ depth ih =>
    have hsources : g'.sourceShape (g'.evalWithin depth) = g.sourceShape (g.evalWithin depth) := by
      funext s
      cases s with
      | raw slot => rw [sourceShape, sourceShape, hraw]
      | flow other => rw [sourceShape, sourceShape, ih]
    have hid := hflows id (g.sourceShape (g.evalWithin depth))
    rw [evalWithin, evalWithin, hsources]
    cases hf : g.flows[id]? with
    | none =>
      rw [hf] at hid
      rw [Option.map_eq_none_iff.mp hid]
    | some f =>
      rw [hf] at hid
      obtain ⟨f', hf', hdenote⟩ := Option.map_eq_some_iff.mp hid
      rw [hf']
      exact hdenote

/-- The evaluation of a flow follows from those of the flows it reads. -/
theorem eval_eq {g : Graph} (hsound : Sound g.rawInputs.length g.flows) {id : Nat} {f : Flow}
    (hf : g.flows[id]? = some f) : g.eval id = f.denote (g.sourceShape g.eval) := by
  have hid : id < g.references.length := by
    rw [length_references]
    exact (List.getElem?_eq_some_iff.mp hf).1
  have hlevel := References.level_lt_length hsound.acyclic_references
    hsound.inRange_references hid
  rw [length_references] at hlevel
  unfold eval
  rw [evalWithin_eq hsound hlevel (Nat.lt_succ_of_lt hlevel), evalWithin, hf]

/-- A flow that has shapes reads flows that have shapes. -/
theorem eval_ok_of_reads {g : Graph} (hsound : Sound g.rawInputs.length g.flows) {id source : Nat}
    (hread : g.references.Reads id source) {shapes : FlowShapes} (h : g.eval id = .ok shapes) :
    ∃ shapes, g.eval source = .ok shapes := by
  obtain ⟨f, hf, hmem⟩ := reads_iff.mp hread
  rw [eval_eq hsound hf] at h
  have hsources := (Flow.evaluate_eq_ok_iff.mp (Flow.evaluate_of_denote h)).2.1
  obtain ⟨position, hposition⟩ := List.mem_iff_getElem?.mp hmem
  obtain ⟨shape, -, hshape⟩ := exists_getElem?_of_forall₂ (mapM_eq_ok_iff.mp hsources) hposition
  obtain ⟨found, hfound, -⟩ := sourceShape_flow_eq_ok_iff.mp hshape
  exact ⟨found, hfound⟩

theorem eval_ok_of_transGen {g : Graph} (hsound : Sound g.rawInputs.length g.flows)
    {id source : Nat} (hreads : Relation.TransGen g.references.Reads id source)
    {shapes : FlowShapes} (h : g.eval id = .ok shapes) : ∃ shapes, g.eval source = .ok shapes := by
  induction hreads with
  | single hread => exact eval_ok_of_reads hsound hread h
  | tail _ hread ih =>
    obtain ⟨found, hfound⟩ := ih
    exact eval_ok_of_reads hsound hread hfound

/-- Every failure of an evaluation names a flow of the document, unless a number is too large. -/
theorem eval_error {g : Graph} (hsound : Sound g.rawInputs.length g.flows) {id : Nat}
    (hid : id < g.size) {e : Failure} (h : g.eval id = .error e) :
    e = .overflow ∨ ∃ f ∈ g.flows, f.Names e := by
  induction hlevel : g.references.level id using Nat.strong_induction_on generalizing id with
  | _ level ih =>
    have hf := List.getElem?_eq_getElem hid
    have hmem := List.mem_of_getElem? hf
    rw [eval_eq hsound hf] at h
    rcases Flow.denote_error h with hoverflow | hnames | ⟨s, hs, hsource⟩
    · exact .inl hoverflow
    · exact .inr ⟨_, hmem, hnames⟩
    · have hexists := hsound.sources _ hmem s hs
      cases s with
      | raw slot =>
        rw [sourceShape, List.getElem?_eq_getElem hexists] at hsource
        cases hsource
      | flow source =>
        -- The failure is that of a flow on a lower level.
        have hlower := References.level_lt_of_reads hsound.acyclic_references
          hsound.inRange_references (reads_iff.mpr ⟨_, hf, hs⟩)
        rw [hlevel] at hlower
        rw [sourceShape] at hsource
        cases hfound : g.eval source with
        | ok shapes =>
          rw [hfound] at hsource
          cases hsource
        | error e' =>
          rw [hfound] at hsource
          cases hsource
          exact ih _ hlower hexists hfound rfl

/-- What holds of the raw inputs, and of what a flow makes once it holds of its sources, holds of
all shapes that flows read and make. -/
theorem forall_evalWithin {g : Graph} {P : Shape → Prop} (hraw : ∀ s ∈ g.rawInputs, P s)
    (hflow : ∀ f ∈ g.flows, ∀ shapes, f.Fits shapes → (∀ s ∈ shapes.sources, P s) →
      P shapes.output) {depth id : Nat} {shapes : FlowShapes}
    (heval : g.evalWithin depth id = .ok shapes) :
    (∀ s ∈ shapes.sources, P s) ∧ P shapes.output := by
  induction depth generalizing id shapes with
  | zero => cases heval
  | succ depth ih =>
    rw [evalWithin] at heval
    split at heval
    · cases heval
    next f hf =>
    have hevaluate := Flow.evaluate_of_denote heval
    have hsources : ∀ s ∈ shapes.sources, P s := by
      intro s hs
      obtain ⟨source, -, hsource⟩ :=
        exists_of_mem_mapM (Flow.evaluate_eq_ok_iff.mp hevaluate).2.1 hs
      cases source with
      | raw slot => exact hraw s (List.mem_of_getElem? (sourceShape_raw_eq_ok_iff.mp hsource))
      | flow other =>
        obtain ⟨found, hfound, rfl⟩ := sourceShape_flow_eq_ok_iff.mp hsource
        exact (ih hfound).2
    exact ⟨hsources,
      hflow f (List.mem_of_getElem? hf) shapes (Flow.fits_of_evaluate hevaluate) hsources⟩

/-! ## Inference of one flow -/

/-- Two graphs have the same document: equal raw inputs, and flows that are equal once builds and
shapes are forgotten. -/
structure SameDocument (g g' : Graph) : Prop where
  rawInputs : g'.rawInputs = g.rawInputs
  flows : g'.flows.map Flow.clear = g.flows.map Flow.clear

theorem SameDocument.length {g g' : Graph} (h : SameDocument g g') :
    g'.flows.length = g.flows.length := by
  simpa using congrArg List.length h.flows

theorem SameDocument.flow {g g' : Graph} (h : SameDocument g g') {id : Nat} {f : Flow}
    (hf : g.flows[id]? = some f) : ∃ f', g'.flows[id]? = some f' ∧ f'.clear = f.clear := by
  have hclear : (g'.flows.map Flow.clear)[id]? = some f.clear := by
    rw [h.flows, List.getElem?_map, hf]
    rfl
  rw [List.getElem?_map] at hclear
  exact Option.map_eq_some_iff.mp hclear

theorem SameDocument.inputs {g g' : Graph} (h : SameDocument g g') :
    g'.flows.map Flow.inputs = g.flows.map Flow.inputs := by
  have hclear : ∀ flows : List Flow,
      flows.map Flow.inputs = (flows.map Flow.clear).map Flow.inputs := by
    intro flows
    rw [List.map_map]
    rfl
  rw [hclear, h.flows, ← hclear]

theorem SameDocument.getElem?_clear {g g' : Graph} (h : SameDocument g g') (id : Nat) :
    g'.flows[id]?.map Flow.clear = g.flows[id]?.map Flow.clear := by
  rw [← List.getElem?_map, h.flows, List.getElem?_map]

/-- What the flows have stored does not matter to their evaluation. -/
theorem SameDocument.eval {g g' : Graph} (h : SameDocument g g') (id : Nat) :
    g'.eval id = g.eval id := by
  have hsize : g'.size = g.size := h.length
  rw [Graph.eval, Graph.eval, hsize]
  refine evalWithin_congr h.rawInputs (fun other shapeOf => ?_) g.size id
  have hclear := congrArg (Option.map (Flow.denote · shapeOf)) (h.getElem?_clear other)
  rwa [Option.map_map, Option.map_map] at hclear

/-- A flow of the document with the shapes that the document gives it. -/
def Evaluated (g : Graph) (id : Nat) (f' : Flow) : Prop :=
  ∃ f shapes, g.flows[id]? = some f ∧ g.eval id = .ok shapes ∧ f' = f.withShapes shapes

/-- A graph holds a flow with the shapes that the document gives it. -/
def Holds (g g' : Graph) (id : Nat) : Prop := ∃ f', g'.flows[id]? = some f' ∧ g.Evaluated id f'

/-- A graph that holds the flows a flow reads knows the shapes of its sources. -/
theorem resolve_eq_sourceShape {g g' : Graph} (hdoc : SameDocument g g') {id : Nat} {f : Flow}
    (hf : g.flows[id]? = some f)
    (hsources : ∀ source, g.references.Reads id source → Holds g g' source) {s : Source}
    (hs : s ∈ f.inputs) : g'.resolve s = g.sourceShape g.eval s := by
  cases s with
  | raw slot =>
    cases hslot : g.rawInputs[slot]? with
    | none => simp only [resolve, sourceShape, hdoc.rawInputs, hslot]
    | some shape => simp only [resolve, sourceShape, hdoc.rawInputs, hslot]
  | flow source =>
    have hread : g.references.Reads id source := reads_iff.mpr ⟨f, hf, hs⟩
    obtain ⟨_, hstored, d, shapes, -, heval, rfl⟩ := hsources source hread
    simp only [resolve, sourceShape, hstored, heval]
    rfl

theorem exists_resolve {g g' : Graph} (hsound : Sound g.rawInputs.length g.flows)
    (hdoc : SameDocument g g') {id : Nat} {f : Flow} (hf : g.flows[id]? = some f)
    (hsources : ∀ source, g.references.Reads id source → Holds g g' source) {s : Source}
    (hs : s ∈ f.inputs) : ∃ shape, g'.resolve s = .ok shape := by
  have hexists := hsound.sources f (List.mem_of_getElem? hf) s hs
  cases s with
  | raw slot =>
    have hslot : slot < g'.rawInputs.length := hdoc.rawInputs ▸ hexists
    exact ⟨g'.rawInputs[slot], by simp only [resolve, List.getElem?_eq_getElem hslot]⟩
  | flow source =>
    obtain ⟨d, hstored, -⟩ := hsources source (reads_iff.mpr ⟨f, hf, hs⟩)
    exact ⟨d.shapes.output, by simp only [resolve, hstored]⟩

/-- An inference of a flow whose sources hold their evaluated shapes finds the evaluated shapes
of the flow, or fails as the evaluation does. -/
theorem infer_result {g g' : Graph} (hsound : Sound g.rawInputs.length g.flows)
    (hdoc : SameDocument g g') {id : Nat} {f f' : Flow} (hf : g.flows[id]? = some f)
    (hf' : g'.flows[id]? = some f')
    (hsources : ∀ source, g.references.Reads id source → Holds g g' source) :
    (∀ shapes, g.eval id = .ok shapes →
      Op.Yields (Flow.infer g'.resolve) f' (Flow.differs f'.shapes shapes) (f.withShapes shapes)) ∧
    ∀ e, g.eval id = .error e → Op.Fails (Flow.infer g'.resolve) f' e f.clear := by
  have hclear : f'.clear = f.clear := by
    obtain ⟨found, hfound, hclear⟩ := hdoc.flow hf
    rw [hf'] at hfound
    cases hfound
    exact hclear
  obtain ⟨hlabel, hinputs, hlayers⟩ := Flow.clear_eq_clear_iff.mp hclear
  rw [eval_eq hsound hf, Flow.denote]
  by_cases hempty : f.inputs = []
  · rw [if_pos hempty]
    have hevaluate := Flow.evaluate_of_inputs_eq_nil g'.resolve (hinputs.trans hempty)
    refine ⟨fun shapes h => (by cases h), fun e h => ?_⟩
    cases h
    obtain ⟨hresult, hstate⟩ := Flow.infer_error hevaluate
    exact ⟨by rw [hresult, hlabel]; rfl, hstate.trans hclear⟩
  rw [if_neg hempty,
    ← Traversal.mapM_congr fun s hs => resolve_eq_sourceShape hdoc hf hsources hs]
  cases hmapM : f.inputs.mapM g'.resolve with
  | error e =>
    -- Every source of a sound document has a shape.
    exfalso
    obtain ⟨s, hs, herror⟩ := exists_of_mapM_eq_error hmapM
    obtain ⟨shape, hshape⟩ := exists_resolve hsound hdoc hf hsources hs
    rw [hshape] at herror
    cases herror
  | ok sources =>
    -- Both take the same sources through the same layers; only the name may come on top.
    rw [← hinputs] at hmapM hempty
    have hevaluate := Flow.evaluate_of_mapM hempty hmapM
    rw [hlayers] at hevaluate
    show (∀ shapes, (Flow.shapesFrom f.layers sources).mapError _ = .ok shapes → _) ∧
      ∀ e, (Flow.shapesFrom f.layers sources).mapError _ = .error e → _
    rw [← hevaluate]
    cases hfound : f'.evaluate g'.resolve with
    | error e' =>
      refine ⟨fun shapes h => (by cases h), fun e h => ?_⟩
      cases h
      obtain ⟨hresult, hstate⟩ := Flow.infer_error hfound
      exact ⟨by rw [hresult, hlabel], hstate.trans hclear⟩
    | ok found =>
      refine ⟨fun shapes h => ?_, fun e h => (by cases h)⟩
      cases h
      obtain ⟨hresult, hstate⟩ := Flow.infer_ok hfound
      refine ⟨hresult, hstate.trans ?_⟩
      unfold Flow.withShapes
      rw [hlabel, hinputs, hlayers]

end Graph

end LayerFlow
