/-
LayerFlow.Proofs.Graph.Checking

What the check of a document answers, whatever the flows list.  Sources that do not exist come
before cycles, and of them the first one by flow and then by position is reported; with all
sources there, a reference is reported that closes a cycle.

Main statements: `FirstMissing.checkStructure_eq`, the source that is reported,
`exists_closing_of_cyclic`, the reference that is reported, and `checkStructure_exact`.
-/
import LayerFlow.Proofs.Graph.Reachable
import LayerFlow.Proofs.References.Search
import Mathlib.Data.Nat.Find

namespace LayerFlow

/-- What is wrong with a source that does not exist, in a flow with an id. -/
def Source.fault (rawCount id : Nat) : Source → SourceFault
  | .raw slot => .rawOutOfRange id slot rawCount
  | .flow other => .flowOutOfRange id other

namespace Graph

variable {rawCount : Nat} {flows : List Flow}

/-! ## References of a list of flows -/

/-- Whether the flow `reader` lists the flow `source`. -/
def ReadsIn (flows : List Flow) (reader source : Nat) : Prop :=
  ∃ f, flows[reader]? = some f ∧ Source.flow source ∈ f.inputs

/-- Whether every source of every flow exists. -/
def SourcesExist (rawCount : Nat) (flows : List Flow) : Prop :=
  ∀ f ∈ flows, ∀ s ∈ f.inputs, s.Exists rawCount flows.length

/-- Whether some flow reads itself, directly or through others. -/
def Cyclic (flows : List Flow) : Prop := ∃ id, Relation.TransGen (ReadsIn flows) id id

theorem reads_referencesOf (flows : List Flow) : (referencesOf flows).Reads = ReadsIn flows := by
  funext reader source
  exact propext reads_iff

theorem acyclic_referencesOf_iff : (referencesOf flows).Acyclic ↔ ¬ Cyclic flows := by
  rw [References.Acyclic, reads_referencesOf, Cyclic, not_exists]

theorem sound_iff : Sound rawCount flows ↔ SourcesExist rawCount flows ∧ ¬ Cyclic flows := by
  rw [← acyclic_referencesOf_iff]
  exact ⟨fun h => ⟨h.sources, h.acyclic⟩, fun h => ⟨h.1, h.2⟩⟩

/-! ## The first source that does not exist -/

/-- The source at a position of a flow does not exist, while every source of an earlier flow does,
and so does every earlier one of the same flow. -/
structure FirstMissing (rawCount : Nat) (flows : List Flow) (id position : Nat) (s : Source) :
    Prop where
  stands : ∃ f, flows[id]? = some f ∧ f.inputs[position]? = some s
  missing : ¬ s.Exists rawCount flows.length
  before : ∀ id' f', id' < id → flows[id']? = some f' →
    ∀ s' ∈ f'.inputs, s'.Exists rawCount flows.length
  beside : ∀ f position' s', flows[id]? = some f → position' < position →
    f.inputs[position']? = some s' → s'.Exists rawCount flows.length

theorem findSome?_eq_some_of_first {α β : Type} {f : α → Option β} {xs : List α} {i : Nat} {x : α}
    {b : β} (hx : xs[i]? = some x) (hb : f x = some b)
    (hbefore : ∀ j y, j < i → xs[j]? = some y → f y = none) : xs.findSome? f = some b := by
  induction xs generalizing i with
  | nil => simp at hx
  | cons first rest ih =>
    rw [List.findSome?_cons]
    cases i with
    | zero =>
      obtain rfl := Option.some.inj hx
      rw [hb]
    | succ i =>
      rw [hbefore 0 first (Nat.succ_pos i) rfl]
      exact ih hx fun j y hj hy => hbefore (j + 1) y (Nat.succ_lt_succ hj) hy

theorem sourceFault?_of_missing {flowCount id : Nat} {s : Source}
    (h : ¬ s.Exists rawCount flowCount) :
    sourceFault? rawCount flowCount id s = some (s.fault rawCount id) := by
  cases s with
  | raw slot => exact if_neg h
  | flow other => exact if_neg h

/-- The first source that does not exist is the one that the check reports. -/
theorem FirstMissing.checkStructure_eq {id position : Nat} {s : Source}
    (h : FirstMissing rawCount flows id position s) :
    checkStructure rawCount flows = .error (.badSource (s.fault rawCount id)) := by
  obtain ⟨f, hf, hs⟩ := h.stands
  have hflow : f.inputs.findSome? (sourceFault? rawCount flows.length id) =
      some (s.fault rawCount id) :=
    findSome?_eq_some_of_first hs (sourceFault?_of_missing h.missing) fun position' s' hlt hs' =>
      sourceFault?_eq_none_iff.mpr (h.beside f position' s' hf hlt hs')
  have hfirst : firstFault? rawCount flows = some (s.fault rawCount id) := by
    refine findSome?_eq_some_of_first (x := (f, id)) (i := id) (by simp [hf]) hflow ?_
    rintro id' ⟨f', index⟩ hlt hentry
    obtain ⟨hf', rfl⟩ : flows[id']? = some f' ∧ id' = index := by
      simpa using hentry
    rw [List.findSome?_eq_none_iff]
    exact fun s' hs' => sourceFault?_eq_none_iff.mpr (h.before id' f' hlt hf' s' hs')
  rw [checkStructure, hfirst]

theorem exists_firstMissing (h : ¬ SourcesExist rawCount flows) :
    ∃ id position s, FirstMissing rawCount flows id position s := by
  classical
  have hflow : ∃ (id : Nat) (f : Flow), flows[id]? = some f ∧
      ∃ s ∈ f.inputs, ¬ s.Exists rawCount flows.length := by
    simp only [SourcesExist, not_forall] at h
    obtain ⟨f, hf, s, hs, hmissing⟩ := h
    obtain ⟨id, hid⟩ := List.mem_iff_getElem?.mp hf
    exact ⟨id, f, hid, s, hs, hmissing⟩
  -- The first flow with such a source, and in it the first such source.
  obtain ⟨f, hf, hsource⟩ := Nat.find_spec hflow
  have hposition : ∃ (position : Nat) (s : Source), f.inputs[position]? = some s ∧
      ¬ s.Exists rawCount flows.length := by
    obtain ⟨s, hs, hmissing⟩ := hsource
    obtain ⟨position, hposition⟩ := List.mem_iff_getElem?.mp hs
    exact ⟨position, s, hposition, hmissing⟩
  obtain ⟨s, hs, hmissing⟩ := Nat.find_spec hposition
  refine ⟨Nat.find hflow, Nat.find hposition, s, ⟨f, hf, hs⟩, hmissing, ?_, ?_⟩
  · intro id' f' hlt hf' s' hs'
    by_contra hnot
    exact Nat.find_min hflow hlt ⟨f', hf', s', hs', hnot⟩
  · intro f' position' s' hf' hlt hs'
    obtain rfl := Option.some.inj (hf.symm.trans hf')
    by_contra hnot
    exact Nat.find_min hposition hlt ⟨s', hs', hnot⟩

/-! ## A reference that closes a cycle -/

/-- With all sources there, a cycle makes the check report a reference that closes one. -/
theorem exists_closing_of_cyclic (h : SourcesExist rawCount flows) (hcyclic : Cyclic flows) :
    ∃ reader source, checkStructure rawCount flows = .error (.cycle reader source) ∧
      ReadsIn flows reader source ∧ Relation.ReflTransGen (ReadsIn flows) source reader := by
  have hedge : (referencesOf flows).closingEdge? ≠ none := by
    rw [ne_eq, References.closingEdge?_eq_none_iff, acyclic_referencesOf_iff]
    exact not_not_intro hcyclic
  obtain ⟨⟨reader, source⟩, hedge⟩ := Option.ne_none_iff_exists'.mp hedge
  obtain ⟨hread, hback⟩ := References.cycle_of_search_eq_some hedge trivial
  rw [reads_referencesOf] at hread hback
  refine ⟨reader, source, ?_, hread, hback⟩
  rw [checkStructure, firstFault?_eq_none_iff.mpr h, hedge]

/-- Only a cycle is refused as one. -/
theorem cyclic_of_checkStructure {reader source : Nat}
    (h : checkStructure rawCount flows = .error (.cycle reader source)) : Cyclic flows := by
  rw [checkStructure] at h
  split at h
  · cases h
  · by_contra hacyclic
    rw [References.closingEdge?_eq_none_iff.mpr (acyclic_referencesOf_iff.mpr hacyclic)] at h
    cases h

/-! ## The check is exact -/

/-- The check of any list of flows: it accepts exactly if every source exists and no flow reads
itself, directly or through others; otherwise it reports the first source that does not exist, and
if all exist, a reference that its reader lists and whose source leads back to the reader.  Its
search for a cycle comes to an end, and enters no flow twice on the way.  So a record becomes a
graph exactly if its version is current, the settings are valid and the check accepts its flows. -/
theorem checkStructure_exact (rawCount : Nat) (flows : List Flow) :
    (checkStructure rawCount flows = .ok () ↔ SourcesExist rawCount flows ∧ ¬ Cyclic flows) ∧
    (¬ SourcesExist rawCount flows → ∃ id position s, FirstMissing rawCount flows id position s ∧
      checkStructure rawCount flows = .error (.badSource (s.fault rawCount id))) ∧
    (SourcesExist rawCount flows → Cyclic flows → ∃ reader source,
      checkStructure rawCount flows = .error (.cycle reader source) ∧
      ReadsIn flows reader source ∧ Relation.ReflTransGen (ReadsIn flows) source reader) ∧
    (let refs := referencesOf flows;
      (WellFounded fun t s => References.SearchState.Step refs s t) ∧
      (∃ last, Relation.ReflTransGen (References.SearchState.Step refs) (.start refs) last ∧
        References.SearchState.Answers refs last refs.closingEdge?) ∧
      ∀ s, Relation.ReflTransGen (References.SearchState.Step refs) (.start refs) s →
        s.entered.Nodup ∧ ∀ id ∈ s.entered, id < flows.length) ∧
    ∀ version rawInputs config, (∃ g, ofRecord ⟨version, rawInputs, flows⟩ config = .ok g) ↔
      version = 1 ∧ config.Valid ∧ SourcesExist rawInputs.length flows ∧ ¬ Cyclic flows := by
  refine ⟨checkStructure_eq_ok_iff_sound.trans sound_iff, fun hmissing => ?_,
    exists_closing_of_cyclic, ⟨References.SearchState.wellFounded_step _,
      References.SearchState.exists_run_search _ _ _, fun s hrun => ?_⟩,
    fun version rawInputs config => ?_⟩
  · obtain ⟨id, position, s, hfirst⟩ := exists_firstMissing hmissing
    exact ⟨id, position, s, hfirst, hfirst.checkStructure_eq⟩
  · have hfresh := (References.SearchState.fresh_start (referencesOf flows)).run hrun
    refine ⟨hfresh.nodup, fun id hid => ?_⟩
    rw [← length_referencesOf]
    exact hfresh.lt_length id hid
  · simp only [ofRecord_eq_ok_iff, exists_and_left, exists_eq, and_true, sound_iff]
    exact Iff.rfl

/-- Two flows that read each other are refused as a cycle, also by way of a record, and so is a flow
that lists a raw input too many as its second source. -/
theorem checkStructure_exact_ring :
    let ring : List Flow := [.fresh "ahead" [.raw 0, .flow 1] [], .fresh "back" [.flow 0] []]
    let short : List Flow := [.fresh "short" [.raw 0, .raw 1] []]
    (∃ reader source, checkStructure 1 ring = .error (.cycle reader source) ∧
      ReadsIn ring reader source) ∧
    (∃ id position s, FirstMissing 1 short id position s ∧
      checkStructure 1 short = .error (.badSource (s.fault 1 id))) ∧
    ¬ ∃ g, ofRecord ⟨1, [⟨4, 4, 3, 1⟩], ring⟩ .default = .ok g := by
  intro ring short
  have hexist : SourcesExist 1 ring := by
    unfold SourcesExist
    decide
  have hahead : ReadsIn ring 0 1 := ⟨_, rfl, by decide⟩
  have hback : ReadsIn ring 1 0 := ⟨_, rfl, by decide⟩
  have hcyclic : Cyclic ring := ⟨0, .head hahead (.single hback)⟩
  have hmissing : ¬ SourcesExist 1 short := by
    unfold SourcesExist
    decide
  obtain ⟨-, -, hclosing, -, hread⟩ := checkStructure_exact 1 ring
  obtain ⟨reader, source, hcheck, hlists, -⟩ := hclosing hexist hcyclic
  exact ⟨⟨reader, source, hcheck, hlists⟩, (checkStructure_exact 1 short).2.1 hmissing,
    fun hgraph => ((hread 1 _ .default).mp hgraph).2.2.2 hcyclic⟩

end Graph

end LayerFlow
