/-
LayerFlow.Proofs.Graph.Structure

Sound documents: every source exists and no flow reads itself, directly or through others.  The
check of a document accepts exactly the sound ones.  Removing a source keeps a document sound
because it removes references only; removing a flow does too, because what is left of the
references, renumbered back, were references before.

Main statements: `checkStructure_eq_ok_iff_sound`, `Sound.set_of_subset` and `Sound.eraseIdx`.
-/
import LayerFlow.Graph.Edit
import LayerFlow.Proofs.References.Acyclic

namespace LayerFlow

/-- Whether a source exists among so many raw inputs and flows. -/
def Source.Exists (rawCount flowCount : Nat) : Source → Prop
  | .raw slot => slot < rawCount
  | .flow id => id < flowCount

instance (rawCount flowCount : Nat) (s : Source) : Decidable (s.Exists rawCount flowCount) :=
  match s with
  | .raw slot => Nat.decLt slot rawCount
  | .flow id => Nat.decLt id flowCount

theorem Source.flow?_eq_some_iff {s : Source} {id : Nat} : s.flow? = some id ↔ s = .flow id := by
  cases s <;> simp [flow?]

namespace Graph

/-- Every source exists, and no flow reads itself, directly or through others. -/
structure Sound (rawCount : Nat) (flows : List Flow) : Prop where
  sources : ∀ f ∈ flows, ∀ s ∈ f.inputs, s.Exists rawCount flows.length
  acyclic : (referencesOf flows).Acyclic

variable {rawCount : Nat} {flows flows' : List Flow}

@[simp] theorem length_referencesOf : (referencesOf flows).length = flows.length := by
  simp [referencesOf]

/-- A flow reads those that stand among its sources. -/
theorem reads_iff {reader source : Nat} : (referencesOf flows).Reads reader source ↔
    ∃ f, flows[reader]? = some f ∧ Source.flow source ∈ f.inputs := by
  rw [References.Reads, References.of, referencesOf, List.getElem?_map]
  cases flows[reader]? with
  | none => simp
  | some f => simp [Flow.dependencies, Source.flow?_eq_some_iff]

/-- References depend on the sources of the flows only. -/
theorem referencesOf_eq (flows : List Flow) :
    referencesOf flows = (flows.map Flow.inputs).map (List.filterMap Source.flow?) := by
  simp [referencesOf, Flow.dependencies, Function.comp_def]

theorem references_eq_of_inputs {g g' : Graph}
    (h : g'.flows.map Flow.inputs = g.flows.map Flow.inputs) : g'.references = g.references := by
  rw [references, referencesOf_eq, h, ← referencesOf_eq, references]

theorem Sound.inRange (h : Sound rawCount flows) : (referencesOf flows).InRange := by
  intro reader source hread
  obtain ⟨f, hf, hmem⟩ := reads_iff.mp hread
  rw [length_referencesOf]
  exact h.sources f (List.mem_of_getElem? hf) _ hmem

/-- Flows that read earlier flows only make a sound document. -/
theorem sound_of_earlier (h : ∀ entry ∈ flows.zipIdx, ∀ s ∈ entry.1.inputs,
    s.Exists rawCount entry.2) : Sound rawCount flows := by
  have hearlier : ∀ (id : Nat) (f : Flow), flows[id]? = some f → ∀ s ∈ f.inputs,
      s.Exists rawCount id := fun id f hf => h (f, id) (List.mem_zipIdx_iff_getElem?.mpr hf)
  have hranked : (referencesOf flows).Ranked fun id => id := by
    intro reader source hread
    obtain ⟨f, hf, hmem⟩ := reads_iff.mp hread
    exact hearlier reader f hf (.flow source) hmem
  refine ⟨fun f hf s hs => ?_, hranked.acyclic⟩
  obtain ⟨id, hid⟩ := List.mem_iff_getElem?.mp hf
  have hexists := hearlier id f hid s hs
  cases s with
  | raw slot => exact hexists
  | flow source => exact Nat.lt_trans hexists (List.getElem?_eq_some_iff.mp hid).1

theorem Sound.acyclic_references {g : Graph} (h : Sound g.rawInputs.length g.flows) :
    g.references.Acyclic :=
  h.acyclic

theorem Sound.inRange_references {g : Graph} (h : Sound g.rawInputs.length g.flows) :
    g.references.InRange :=
  h.inRange

theorem length_references (g : Graph) : g.references.length = g.size := length_referencesOf

/-! ## The check of a document -/

theorem sourceFault?_eq_none_iff {flowCount id : Nat} {s : Source} :
    sourceFault? rawCount flowCount id s = none ↔ s.Exists rawCount flowCount := by
  cases s <;> simp [sourceFault?, Source.Exists]

theorem firstFault?_eq_none_iff : firstFault? rawCount flows = none ↔
    ∀ f ∈ flows, ∀ s ∈ f.inputs, s.Exists rawCount flows.length := by
  rw [firstFault?]
  simp only [List.findSome?_eq_none_iff, sourceFault?_eq_none_iff]
  constructor
  · intro h f hf
    obtain ⟨id, hid, rfl⟩ := List.mem_iff_getElem.mp hf
    exact h (flows[id], id) (List.mem_zipIdx_iff_getElem?.mpr (List.getElem?_eq_getElem hid))
  · intro h entry hentry
    exact h entry.1 (List.mem_of_getElem? (List.mem_zipIdx_iff_getElem?.mp hentry))

/-- Accepted are exactly the sound documents. -/
theorem checkStructure_eq_ok_iff_sound :
    checkStructure rawCount flows = .ok () ↔ Sound rawCount flows := by
  rw [checkStructure_eq_ok_iff, firstFault?_eq_none_iff, References.closingEdge?_eq_none_iff]
  exact ⟨fun h => ⟨h.1, h.2⟩, fun h => ⟨h.sources, h.acyclic⟩⟩

theorem firstFault?_eq (flows : List Flow) : firstFault? rawCount flows =
    (flows.map Flow.inputs).zipIdx.findSome? fun entry =>
      entry.1.findSome? (sourceFault? rawCount (flows.map Flow.inputs).length entry.2) := by
  simp [firstFault?, List.zipIdx_map, List.findSome?_map, Function.comp_def]

/-- The check looks at the sources of the flows only. -/
theorem checkStructure_congr (h : flows'.map Flow.inputs = flows.map Flow.inputs) :
    checkStructure rawCount flows' = checkStructure rawCount flows := by
  rw [checkStructure, firstFault?_eq, referencesOf_eq, h, ← firstFault?_eq, ← referencesOf_eq,
    checkStructure]

/-! ## Changes that keep a document sound -/

/-- Whether a document is sound depends on the sources of its flows alone. -/
theorem Sound.congr (h : Sound rawCount flows)
    (hinputs : flows'.map Flow.inputs = flows.map Flow.inputs) : Sound rawCount flows' := by
  have hlength : flows'.length = flows.length := by
    simpa using congrArg List.length hinputs
  refine ⟨?_, ?_⟩
  · intro f hf s hs
    have hmem : f.inputs ∈ flows.map Flow.inputs := hinputs ▸ List.mem_map_of_mem hf
    obtain ⟨g, hg, heq⟩ := List.mem_map.mp hmem
    rw [hlength]
    exact h.sources g hg s (heq ▸ hs)
  · rw [referencesOf_eq, hinputs, ← referencesOf_eq]
    exact h.acyclic

theorem Sound.mono {more : Nat} (h : Sound rawCount flows) (hle : rawCount ≤ more) :
    Sound more flows := by
  refine ⟨fun f hf s hs => ?_, h.acyclic⟩
  have hexists := h.sources f hf s hs
  cases s with
  | raw slot => exact Nat.lt_of_lt_of_le hexists hle
  | flow id => exact hexists

theorem sound_nil : Sound rawCount [] := by
  refine ⟨by simp, fun id hcycle => ?_⟩
  obtain ⟨next, hread, -⟩ := Relation.TransGen.head'_iff.mp hcycle
  obtain ⟨f, hf, -⟩ := reads_iff.mp hread
  simp at hf

/-- References that map into references without cycles have no cycle. -/
theorem acyclic_of_map {refs refs' : References} (place : Nat → Nat) (h : refs.Acyclic)
    (hmap : ∀ reader source, refs'.Reads reader source →
      refs.Reads (place reader) (place source)) : refs'.Acyclic := by
  intro id hcycle
  exact h (place id) (Relation.TransGen.lift place hmap id id hcycle)

/-- Taking sources away from a flow keeps a document sound. -/
theorem Sound.set_of_subset (h : Sound rawCount flows) {id : Nat} {f f' : Flow}
    (hf : flows[id]? = some f) (hsub : ∀ s ∈ f'.inputs, s ∈ f.inputs) :
    Sound rawCount (flows.set id f') := by
  refine ⟨?_, acyclic_of_map (fun other => other) h.acyclic ?_⟩
  · intro g hg s hs
    rw [List.length_set]
    rcases List.mem_or_eq_of_mem_set hg with hg | rfl
    · exact h.sources g hg s hs
    · exact h.sources f (List.mem_of_getElem? hf) s (hsub s hs)
  · intro reader source hread
    obtain ⟨g, hg, hmem⟩ := reads_iff.mp hread
    rw [List.getElem?_set] at hg
    -- The flow that changed reads no more than before.
    by_cases hid : id = reader
    · subst hid
      rw [if_pos rfl] at hg
      split at hg
      · cases hg
        exact reads_iff.mpr ⟨f, hf, hsub _ hmem⟩
      · cases hg
    · rw [if_neg hid] at hg
      exact reads_iff.mpr ⟨g, hg, hmem⟩

/-! ## Removing a flow -/

/-- Where a flow stood before one with an id was removed. -/
def placeBefore (id other : Nat) : Nat := if other < id then other else other + 1

theorem getElem?_eraseIdx_placeBefore (id other : Nat) :
    (flows.eraseIdx id)[other]? = flows[placeBefore id other]? := by
  rw [List.getElem?_eraseIdx, placeBefore]
  split <;> rfl

/-- A source that is left was a source before, at the place where it stood. -/
theorem mem_of_mem_dropSource {id : Nat} {inputs : List Source} {s : Source}
    (h : s ∈ dropSource id inputs) : s.renumber (placeBefore id) ∈ inputs := by
  rw [dropSource] at h
  obtain ⟨old, hold, rfl⟩ := List.mem_map.mp h
  obtain ⟨hmem, hne⟩ := List.mem_filter.mp hold
  cases old with
  | raw slot => exact hmem
  | flow other =>
    have hother : other ≠ id := by simpa [Source.flow?] using hne
    have hplace : placeBefore id (if id < other then other - 1 else other) = other := by
      rw [placeBefore]
      split <;> split <;> omega
    simpa [Source.renumber, hplace] using hmem

/-- Removing a flow with the references to it keeps a document sound. -/
theorem Sound.eraseIdx (h : Sound rawCount flows) {id : Nat} (hid : id < flows.length) :
    Sound rawCount ((flows.eraseIdx id).map fun f => f.withInputs (dropSource id f.inputs)) := by
  refine ⟨?_, acyclic_of_map (placeBefore id) h.acyclic ?_⟩
  · intro g hg s hs
    obtain ⟨f, hf, rfl⟩ := List.mem_map.mp hg
    have hexists := h.sources f (List.mem_of_mem_eraseIdx hf) _ (mem_of_mem_dropSource hs)
    rw [List.length_map, List.length_eraseIdx_of_lt hid]
    -- Flows behind the removed one move up by one, and so do references to them.
    cases s with
    | raw slot => exact hexists
    | flow other =>
      simp only [Source.renumber, Source.Exists, placeBefore] at hexists ⊢
      split at hexists <;> omega
  · intro reader source hread
    obtain ⟨g, hg, hmem⟩ := reads_iff.mp hread
    rw [List.getElem?_map, getElem?_eraseIdx_placeBefore] at hg
    obtain ⟨f, hf, rfl⟩ := Option.map_eq_some_iff.mp hg
    exact reads_iff.mpr ⟨f, hf, mem_of_mem_dropSource hmem⟩

end Graph

end LayerFlow
