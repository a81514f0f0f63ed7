/-
LayerFlow.Proofs.Graph.Renumbering

Shapes do not depend on the numbers of flows.  A flow of one document and a flow of another one
that have equal layers, and read the same raw inputs and flows that correspond in the same way, get
the same shapes.  Inserting, copying and removing flows leave such a correspondence between the old
document and the new one.

Main statements: `Simulates.eval`, and `edits_keep_shapes`, what the next inference finds after a
flow is copied, inserted or removed.
-/
import LayerFlow.Proofs.Graph.Modes

namespace LayerFlow

open Op Traversal

/-! ## Documents that correspond -/

/-- The same raw input, or flows that correspond. -/
inductive Source.Matches (R : Nat → Nat → Prop) : Source → Source → Prop
  | raw (slot : Nat) : Matches R (.raw slot) (.raw slot)
  | flow {id id' : Nat} (h : R id id') : Matches R (.flow id) (.flow id')

/-- A flow that has shapes reads something, its sources have shapes, and its layers fit them.  Its
label does not matter. -/
theorem Flow.denote_eq_ok_iff {f : Flow} {shapeOf : Resolver} {shapes : FlowShapes} :
    f.denote shapeOf = .ok shapes ↔ f.inputs ≠ [] ∧
      ∃ sources, f.inputs.mapM shapeOf = .ok sources ∧
        shapesFrom f.layers sources = .ok shapes := by
  rw [denote]
  split
  · next hnil =>
    simp [hnil]
  · next hne =>
    simp only [bind_eq_ok_iff, mapError_eq_ok_iff, ne_eq, hne, not_false_eq_true, true_and]

namespace Graph

/-- Flows of one document correspond to flows of another one: they have equal layers, and what they
read corresponds as well, in order. -/
structure Simulates (R : Nat → Nat → Prop) (g g' : Graph) : Prop where
  rawInputs : g'.rawInputs = g.rawInputs
  flows : ∀ {id id' : Nat} {f : Flow}, R id id' → g.flows[id]? = some f →
    ∃ f', g'.flows[id']? = some f' ∧ f'.layers = f.layers ∧
      List.Forall₂ (Source.Matches R) f.inputs f'.inputs

section

variable {R : Nat → Nat → Prop} {g g' : Graph}

/-- Sources that correspond have the same shape if flows that correspond have. -/
theorem Simulates.sourceShape (h : Simulates R g g')
    {shapesOf shapesOf' : Nat → Except Failure FlowShapes}
    (hflows : ∀ {id id' shapes}, R id id' → shapesOf id = .ok shapes → shapesOf' id' = .ok shapes)
    {s s' : Source} (hs : Source.Matches R s s') {shape : Shape}
    (hshape : g.sourceShape shapesOf s = .ok shape) : g'.sourceShape shapesOf' s' = .ok shape := by
  cases hs with
  | raw slot =>
    rw [sourceShape_raw_eq_ok_iff] at hshape ⊢
    rwa [h.rawInputs]
  | flow hR =>
    obtain ⟨shapes, hfound, rfl⟩ := sourceShape_flow_eq_ok_iff.mp hshape
    exact sourceShape_flow_eq_ok_iff.mpr ⟨shapes, hflows hR hfound, rfl⟩

theorem Simulates.evalWithin (h : Simulates R g g') {depth id id' : Nat} (hR : R id id')
    {shapes : FlowShapes} (heval : g.evalWithin depth id = .ok shapes) :
    g'.evalWithin depth id' = .ok shapes := by
  induction depth generalizing id id' shapes with
  | zero => cases heval
  | succ depth ih =>
    rw [Graph.evalWithin] at heval ⊢
    split at heval
    · cases heval
    next f hf =>
    obtain ⟨f', hf', hlayers, hinputs⟩ := h.flows hR hf
    obtain ⟨hne, sources, hsources, hmade⟩ := Flow.denote_eq_ok_iff.mp heval
    rw [hf']
    refine Flow.denote_eq_ok_iff.mpr ⟨?_, sources, ?_, hlayers ▸ hmade⟩
    · intro hnil
      rw [hnil] at hinputs
      exact hne (List.forall₂_nil_right_iff.mp hinputs)
    -- Each source of the new flow has the shape of the old source in its place.
    · refine mapM_of_forall₂ hinputs (fun _ _ hs _ => ?_) hsources
      exact h.sourceShape (fun hR heval => ih hR heval) hs

/-- Looking further than there are flows finds nothing else. -/
theorem evalWithin_eq_eval (hsound : Sound g.rawInputs.length g.flows) {depth id : Nat}
    (hid : id < g.size) (hdepth : g.size ≤ depth) : g.evalWithin depth id = g.eval id := by
  have hlevel : g.references.level id < g.size := by
    have hlength := References.level_lt_length hsound.acyclic_references hsound.inRange_references
      (length_references g ▸ hid)
    rwa [length_references] at hlength
  exact evalWithin_eq hsound (Nat.lt_of_lt_of_le hlevel hdepth) hlevel

/-- A flow has the shapes of the flow that it corresponds to. -/
theorem Simulates.eval (h : Simulates R g g') (hsound : Sound g.rawInputs.length g.flows)
    (hsound' : Sound g'.rawInputs.length g'.flows) {id id' : Nat} (hR : R id id')
    {shapes : FlowShapes} (hid : id < g.size) (heval : g.eval id = .ok shapes) :
    g'.eval id' = .ok shapes := by
  obtain ⟨f', hf', -⟩ := h.flows hR (List.getElem?_eq_getElem hid)
  have hid' : id' < g'.size := (List.getElem?_eq_some_iff.mp hf').1
  rw [← evalWithin_eq_eval hsound' hid' (Nat.le_max_right g.size g'.size)]
  rw [← evalWithin_eq_eval hsound hid (Nat.le_max_left g.size g'.size)] at heval
  exact h.evalWithin hR heval

end

/-! ## Edits leave correspondences -/

section

variable {g : Graph} {f : Flow} {index : Nat}

/-- Where flows are found once one has been inserted at an index: at their new places. -/
def Shifted (index id id' : Nat) : Prop := id' = placeAfter index id

/-- Where flows are found once one of them has been copied: at their new places, and that one also
in its copy. -/
def Copied (original id id' : Nat) : Prop :=
  Shifted (original + 1) id id' ∨ id = original ∧ id' = original + 1

/-- Where flows are found once one of them has been removed. -/
def Remaining (removed id id' : Nat) : Prop := id = placeBefore removed id'

theorem forall₂_renumber {R : Nat → Nat → Prop} {place : Nat → Nat} {inputs : List Source}
    (h : ∀ id, .flow id ∈ inputs → R id (place id)) :
    List.Forall₂ (Source.Matches R) inputs (inputs.map (Source.renumber place)) := by
  rw [List.forall₂_map_right_iff, List.forall₂_same]
  intro s hs
  cases s with
  | raw slot => exact .raw slot
  | flow id => exact .flow (h id hs)

/-- The graph once a flow is inserted. -/
def inserted (g : Graph) (index : Nat) (f : Flow) : Graph :=
  { g with flows := (g.flows.insertIdx index f).map (Flow.shifted index) }.resetAll

/-- The graph once a flow is removed. -/
def trimmed (g : Graph) (id : Nat) : Graph :=
  { g with flows := (g.flows.eraseIdx id).map fun (f : Flow) =>
    f.withInputs (dropSource id f.inputs) }.resetAll

theorem getElem?_inserted (id : Nat) : (g.inserted index f).flows[id]? =
    (g.flows.insertIdx index f)[id]?.map fun f => (f.shifted index).reset := by
  show (((g.flows.insertIdx index f).map (Flow.shifted index)).map Flow.reset)[id]? = _
  rw [List.map_map, List.getElem?_map]
  rfl

/-- Flows correspond to themselves at their new places. -/
theorem simulates_inserted (g : Graph) (index : Nat) (f : Flow) :
    Simulates (Shifted index) g (g.inserted index f) := by
  refine ⟨rfl, ?_⟩
  rintro id _ old rfl hold
  refine ⟨(old.shifted index).reset, ?_, rfl, forall₂_renumber fun _ _ => rfl⟩
  rw [getElem?_inserted, getElem?_insertIdx_placeAfter, hold]
  rfl

/-- A copy corresponds to the flow that it was made of. -/
theorem simulates_copied {original : Nat} (hf : g.flows[original]? = some f) :
    Simulates (Copied original) g (g.inserted (original + 1) f.copy) := by
  refine ⟨rfl, ?_⟩
  rintro id _ old (rfl | ⟨rfl, rfl⟩) hold
  · refine ⟨(old.shifted (original + 1)).reset, ?_, rfl, forall₂_renumber fun _ _ => .inl rfl⟩
    rw [getElem?_inserted, getElem?_insertIdx_placeAfter, hold]
    rfl
  · obtain rfl := Option.some.inj (hf.symm.trans hold)
    refine ⟨(f.copy.shifted (id + 1)).reset, ?_, rfl, forall₂_renumber fun _ _ => .inl rfl⟩
    rw [getElem?_inserted,
      List.getElem?_insertIdx_self, if_pos (Nat.succ_le_of_lt (List.getElem?_eq_some_iff.mp hf).1)]
    rfl

/-- Flows correspond to what is left of them if none of them reads the flow that is removed. -/
theorem simulates_trimmed {removed : Nat} (hunread : ∀ reader, ¬ g.ReadsFlow reader removed) :
    Simulates (Remaining removed) g (g.trimmed removed) := by
  refine ⟨rfl, ?_⟩
  rintro _ id' old rfl hold
  refine ⟨(old.withInputs (dropSource removed old.inputs)).reset, ?_, rfl, ?_⟩
  · show (((g.flows.eraseIdx removed).map _).map Flow.reset)[id']? = _
    rw [List.map_map, List.getElem?_map, getElem?_eraseIdx_placeBefore, hold]
    rfl
  · have hkept : old.inputs.filter (fun s => s.flow? ≠ some removed) = old.inputs := by
      rw [List.filter_eq_self]
      intro s hs
      rw [decide_eq_true_iff, ne_eq, Source.flow?_eq_some_iff]
      rintro rfl
      exact hunread _ ⟨old, hold, hs⟩
    show List.Forall₂ _ old.inputs (dropSource removed old.inputs)
    rw [dropSource, hkept]
    refine forall₂_renumber fun other hother => ?_
    have hne : other ≠ removed := by
      rintro rfl
      exact hunread _ ⟨old, hold, hother⟩
    rw [Remaining, placeBefore]
    split <;> split <;> omega

end

/-! ## Edits that go through -/

section

variable {g : Graph} {f : Flow}

/-- An insertion is accepted if every source of the new flow exists before it. -/
theorem Sound.yields_insertFlow (h : Sound g.rawInputs.length g.flows) (hcount : Size.Fits g.size)
    {index : Nat} (hindex : index ≤ g.size)
    (hinputs : ∀ s ∈ f.inputs, s.Exists g.rawInputs.length g.size) :
    (Graph.insertFlow index f).Yields g index (g.inserted index f) := by
  have hflows : (g.flows.insertIdx index f).mapM (shiftFlow index) =
      .ok ((g.flows.insertIdx index f).map (Flow.shifted index)) := by
    refine mapM_eq_ok_map fun old hold => shiftFlow_of_hasNext (fun s hs => ?_) index
    rcases List.eq_or_mem_of_mem_insertIdx hold with rfl | hmem
    · exact (hinputs s hs).hasNext hcount
    · exact (h.sources old hmem s hs).hasNext hcount
  refine yields_get_bind.mpr ?_
  rw [if_pos hindex]
  refine yields_bind.mpr
    ⟨(), _, yields_editFlows.mpr ⟨_, hflows, h.insertIdx hindex hinputs, rfl⟩, ?_⟩
  exact yields_bind.mpr ⟨(), _, yields_say.mpr rfl, yields_pure.mpr ⟨rfl, rfl⟩⟩

theorem yields_removeFlow_of_lt {id : Nat} (hid : id < g.size) :
    ∃ removed, (Graph.removeFlow id).Yields g removed (g.trimmed id) := by
  obtain ⟨removed, hremoved⟩ := getElem?_of_lt_size hid
  refine ⟨removed, ?_⟩
  simp only [Graph.removeFlow, yields_bind, yields_get, yields_ofExcept, yields_note, yields_set,
    yields_say, yields_pure]
  exact ⟨g, g, ⟨rfl, rfl⟩, removed, g, ⟨flow_eq_ok_iff.mpr hremoved, rfl⟩, (), g, rfl, (), _, rfl,
    (), _, rfl, rfl, rfl⟩

/-- Where a flow stood before one of them was copied; the copy stands for its original. -/
def originalOf (original id : Nat) : Nat := if id ≤ original then id else id - 1

theorem yields_duplicateFlow_of_lt (h : Sound g.rawInputs.length g.flows)
    (hcount : Size.Fits g.size) {id : Nat} (hf : g.flows[id]? = some f) :
    (Graph.duplicateFlow id).Yields g (id + 1) (g.inserted (id + 1) f.copy) := by
  have hlt : id < g.flows.length := (List.getElem?_eq_some_iff.mp hf).1
  refine yields_get_bind.mpr ?_
  refine yields_bind.mpr ⟨f, g, yields_ofExcept.mpr ⟨flow_eq_ok_iff.mpr hf, rfl⟩, ?_⟩
  exact h.yields_insertFlow hcount hlt (h.sources f (List.mem_of_getElem? hf))

end

/-! ## The next inference -/

/-- An inference succeeds if the document gives shapes to every flow. -/
theorem Inferable.yields_of_eval {g : Graph} (h : g.Inferable)
    (hall : ∀ id < g.size, ∃ shapes, g.eval id = .ok shapes) :
    ∃ changed g', inferAll.Yields g changed g' := by
  cases hresult : (inferAll.run g).result with
  | ok changed => exact ⟨changed, _, hresult, rfl⟩
  | error e =>
    obtain ⟨id, hid, heval⟩ := h.exists_error hresult
    obtain ⟨shapes, hshapes⟩ := hall id hid
    rw [heval] at hshapes
    cases hshapes

theorem Inferable.settled {g g' : Graph} (h : g.Inferable) {changed : Bool}
    (hrun : inferAll.Yields g changed g') : Settled g g' := by
  obtain ⟨hresult, hstate⟩ := h.run_inferAll
  have hnone := (passFailure?_eq_none_of_ok (hresult.symm.trans hrun.1)).1
  rw [← hrun.2, hstate]
  exact settled_passed h.sound hnone _

/-- Flows that correspond have the same shapes: of their sources, of the inputs of their layers, of
their combined inputs and of their outputs. -/
def SameShapes (R : Nat → Nat → Prop) (g g' : Graph) : Prop :=
  ∀ id id' f, R id id' → g.flows[id]? = some f →
    ∃ f', g'.flows[id']? = some f' ∧ f'.shapes = f.shapes

section

variable {R : Nat → Nat → Prop} {start settled edited : Graph}

theorem Settled.exists_flow (h : Settled start settled) {id : Nat} {f' : Flow}
    (hf' : settled.flows[id]? = some f') : ∃ f shapes, start.flows[id]? = some f ∧
      start.eval id = .ok shapes ∧ f' = f.withShapes shapes := by
  have hid : id < start.size := by
    rw [Graph.size, ← h.1.length]
    exact (List.getElem?_eq_some_iff.mp hf').1
  obtain ⟨f, hf⟩ := getElem?_of_lt_size hid
  obtain ⟨shapes, heval, hstored⟩ := h.flow hf
  exact ⟨f, shapes, hf, heval, Option.some.inj (hf'.symm.trans hstored)⟩

theorem Settled.eval_shapes (h : Settled start settled) {id : Nat} {f : Flow}
    (hf : settled.flows[id]? = some f) : start.eval id = .ok f.shapes := by
  obtain ⟨old, shapes, -, heval, rfl⟩ := h.exists_flow hf
  exact heval

/-- Inferences of documents that correspond find the same shapes. -/
theorem Simulates.sameShapes (h : Simulates R start edited)
    (hsound : Sound start.rawInputs.length start.flows)
    (hsound' : Sound edited.rawInputs.length edited.flows) (hsettled : Settled start settled)
    {settled' : Graph} (hsettled' : Settled edited settled') : SameShapes R settled settled' := by
  intro id id' f hR hf
  have heval := hsettled.eval_shapes hf
  have hid : id < start.size := by
    rw [Graph.size, ← hsettled.1.length]
    exact (List.getElem?_eq_some_iff.mp hf).1
  obtain ⟨f', hf', -⟩ := h.flows hR (List.getElem?_eq_getElem hid)
  obtain ⟨shapes, heval', hstored⟩ := hsettled'.flow hf'
  rw [h.eval hsound hsound' hR hid heval] at heval'
  cases heval'
  exact ⟨_, hstored, rfl⟩

/-- If every flow of a document corresponds to one that has shapes, an inference finds them. -/
theorem Simulates.inferAll (h : Simulates R start edited) (hstart : start.Inferable)
    (hedited : edited.Inferable) (hsettled : Settled start settled)
    (hcovers : ∀ id' < edited.size, ∃ id < start.size, R id id') :
    ∃ changed settled', Graph.inferAll.Yields edited changed settled' ∧
      SameShapes R settled settled' := by
  have hall : ∀ id' < edited.size, ∃ shapes, edited.eval id' = .ok shapes := by
    intro id' hid'
    obtain ⟨id, hid, hR⟩ := hcovers id' hid'
    obtain ⟨shapes, heval⟩ := (hsettled.2 id hid).eval
    exact ⟨shapes, h.eval hstart.sound hedited.sound hR hid heval⟩
  obtain ⟨changed, settled', hrun⟩ := hedited.yields_of_eval hall
  exact ⟨changed, settled', hrun,
    h.sameShapes hstart.sound hedited.sound hsettled (hedited.settled hrun)⟩

end

section

variable {g : Graph}

theorem Inferable.inserted (h : g.Inferable) {index : Nat} {f : Flow}
    (hsound : Sound g.rawInputs.length ((g.flows.insertIdx index f).map (Flow.shifted index))) :
    (g.inserted index f).Inferable := by
  refine ⟨sound_resetAll (g := { g with flows := _ }) hsound, h.passes, ?_⟩
  rintro analysis ⟨⟩

theorem Inferable.trimmed (h : g.Inferable) {id : Nat} (hid : id < g.size) :
    (g.trimmed id).Inferable := by
  refine ⟨sound_resetAll (g := { g with flows := _ }) (h.sound.eraseIdx hid), h.passes, ?_⟩
  rintro analysis ⟨⟩

theorem size_inserted {index : Nat} (hindex : index ≤ g.size) (f : Flow) :
    (g.inserted index f).size = g.size + 1 := by
  show (((g.flows.insertIdx index f).map _).map _).length = _
  rw [List.length_map, List.length_map, List.length_insertIdx_of_le_length hindex]
  rfl

theorem size_trimmed {id : Nat} (hid : id < g.size) : (g.trimmed id).size = g.size - 1 := by
  show (((g.flows.eraseIdx id).map _).map _).length = _
  rw [List.length_map, List.length_map, List.length_eraseIdx_of_lt hid]
  rfl

theorem copied_covers {original : Nat} (horiginal : original < g.size) {id' : Nat}
    (hid' : id' < g.size + 1) : ∃ id < g.size, Copied original id id' := by
  refine ⟨originalOf original id', ?_, ?_⟩
  · rw [originalOf]
    split <;> omega
  · simp only [Copied, Shifted, originalOf, placeAfter]
    split <;> split <;> omega

theorem remaining_covers {removed : Nat} (hremoved : removed < g.size) {id' : Nat}
    (hid' : id' < g.size - 1) : ∃ id < g.size, Remaining removed id id' := by
  refine ⟨placeBefore removed id', ?_, rfl⟩
  rw [placeBefore]
  split <;> omega

end

/-- Edits do not move the shapes of the flows that they leave alone.  Where an inference succeeds,
and whether the edit comes before it or after it: copying a flow always succeeds, and so does the
next inference, which gives every flow the shapes it had, and the copy those of its original; after
an insertion that is accepted, the next inference gives every old flow the shapes it had, if it
succeeds; after the removal of a flow that no flow reads it does succeed, and gives every flow that
is left the shapes it had. -/
theorem edits_keep_shapes {g settled start : Graph} {changed : Bool} (h : g.Reachable)
    (hrun : inferAll.Yields g changed settled) (hstart : start = g ∨ start = settled)
    (hcount : Size.Fits g.size) :
    (∀ id < start.size, ∃ edited changed settled',
      (Graph.duplicateFlow id).Yields start (id + 1) edited ∧
      inferAll.Yields edited changed settled' ∧ SameShapes (Copied id) settled settled') ∧
    (∀ index f answer edited changed settled',
      (Graph.insertFlow index f).Yields start answer edited →
      inferAll.Yields edited changed settled' → SameShapes (Shifted index) settled settled') ∧
    ∀ id < start.size, (∀ reader, ¬ start.ReadsFlow reader id) →
      ∃ removed edited changed settled', (Graph.removeFlow id).Yields start removed edited ∧
        inferAll.Yields edited changed settled' ∧ SameShapes (Remaining id) settled settled' := by
  have hinferable := h.wellFormed.inferable
  have hsettled := hinferable.settled hrun
  -- An inference that has succeeded succeeds again, so it does not matter which graph is edited.
  obtain ⟨hready, hshapes, hsize⟩ :
      start.Inferable ∧ Settled start settled ∧ Size.Fits start.size := by
    rcases hstart with rfl | rfl
    · exact ⟨hinferable, hsettled, hcount⟩
    · obtain ⟨hok, rfl⟩ := hrun
      refine ⟨hinferable.afterwards, hinferable.afterwards.settled (hinferable.inferAll_again hok),
        ?_⟩
      rwa [Graph.size, hsettled.1.length]
  refine ⟨fun id hid => ?_, fun index f answer edited changed settled' hinsert hnext => ?_,
    fun id hid hunread => ?_⟩
  · obtain ⟨f, hf⟩ := getElem?_of_lt_size hid
    have hcopy : (start.inserted (id + 1) f.copy).Inferable :=
      hready.inserted (hready.sound.insertIdx hid
        (hready.sound.sources f (List.mem_of_getElem? hf)))
    obtain ⟨changed, settled', hnext, hsame⟩ := (simulates_copied hf).inferAll hready hcopy
      hshapes fun id' hid' => copied_covers hid (size_inserted hid f.copy ▸ hid')
    exact ⟨_, changed, settled', yields_duplicateFlow_of_lt hready.sound hsize hf, hnext, hsame⟩
  · obtain ⟨-, hsound, rfl⟩ := yields_insertFlow hinsert
    have hedited : (start.inserted index f).Inferable := hready.inserted hsound
    exact (simulates_inserted start index f).sameShapes hready.sound hedited.sound hshapes
      (hedited.settled hnext)
  · obtain ⟨removed, hremove⟩ := yields_removeFlow_of_lt hid
    obtain ⟨changed, settled', hnext, hsame⟩ := (simulates_trimmed hunread).inferAll hready
      (hready.trimmed hid) hshapes fun id' hid' => remaining_covers hid (size_trimmed hid ▸ hid')
    exact ⟨removed, _, changed, settled', hremove, hnext, hsame⟩

/-- The shared flow is copied, the copy is inserted as a flow of its own, or the last flow is
removed: the copy has the shapes of the shared flow, and the others have theirs in their new
places. -/
theorem edits_keep_shapes_diamond :
    let settled := (inferAll.run diamond).state
    (∃ edited changed settled', (Graph.duplicateFlow 0).Yields settled 1 edited ∧
      inferAll.Yields edited changed settled' ∧
      settled'.flows[1]?.map Flow.shapes = settled.flows[0]?.map Flow.shapes ∧
      settled'.flows[4]?.map Flow.shapes = settled.flows[3]?.map Flow.shapes) ∧
    (∃ f edited changed settled', (Graph.insertFlow 1 f).Yields settled 1 edited ∧
      inferAll.Yields edited changed settled' ∧
      settled'.flows[2]?.map Flow.shapes = settled.flows[1]?.map Flow.shapes) ∧
    ∃ removed edited changed settled', (Graph.removeFlow 3).Yields settled removed edited ∧
      inferAll.Yields edited changed settled' ∧
      settled'.flows[2]?.map Flow.shapes = settled.flows[2]?.map Flow.shapes := by
  intro settled
  have hrun : inferAll.Yields diamond true settled := ⟨rfl, rfl⟩
  have hcount : Size.Fits diamond.size := by decide
  obtain ⟨hcopies, hinserts, hremoves⟩ :=
    edits_keep_shapes reachable_diamond hrun (.inr rfl) hcount
  have hmap : ∀ {R : Nat → Nat → Prop} {settled' : Graph} {id id' : Nat},
      SameShapes R settled settled' → R id id' → id < settled.size →
      settled'.flows[id']?.map Flow.shapes = settled.flows[id]?.map Flow.shapes := by
    intro R settled' id id' hsame hR hid
    obtain ⟨f, hf⟩ := getElem?_of_lt_size hid
    obtain ⟨f', hf', hshapes⟩ := hsame id id' f hR hf
    rw [hf, hf', Option.map_some, Option.map_some, hshapes]
  obtain ⟨edited, changed, settled', hcopy, hnext, hsame⟩ := hcopies 0 (by decide)
  obtain ⟨f, -, hinsert⟩ := yields_duplicateFlow hcopy
  refine ⟨?_, ?_, ?_⟩
  · exact ⟨edited, changed, settled', hcopy, hnext,
      hmap hsame (.inr ⟨rfl, rfl⟩) (by decide), hmap hsame (.inl rfl) (by decide)⟩
  · exact ⟨f.copy, edited, changed, settled', hinsert, hnext,
      hmap (hinserts 1 f.copy 1 edited changed settled' hinsert hnext) rfl (by decide)⟩
  · have hlast : ∀ f ∈ settled.flows, Source.flow 3 ∉ f.inputs := by decide
    have hunread : ∀ reader, ¬ settled.ReadsFlow reader 3 := by
      rintro reader ⟨f, hf, hmem⟩
      exact hlast f (List.mem_of_getElem? hf) hmem
    obtain ⟨removed, edited, changed, settled', hremove, hnext, hsame⟩ :=
      hremoves 3 (by decide) hunread
    exact ⟨removed, edited, changed, settled', hremove, hnext, hmap hsame rfl (by decide)⟩

end Graph

end LayerFlow
