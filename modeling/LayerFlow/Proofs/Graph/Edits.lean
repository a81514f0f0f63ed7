/-
LayerFlow.Proofs.Graph.Edits

The edits of a document as data, and what each of them does to the list of flows.  An edit that
is accepted changes the list in one place; inserting and removing a flow also renumber all
references to later flows.  An edit that is refused changes nothing.

Main statements: `Edit.edited_of_yields`, what an edit that is accepted leaves, and
`Edit.eq_of_fails`, a refused one leaves everything as it was.
-/
import LayerFlow.Proofs.Graph.Reachable

namespace LayerFlow

open Op

/-! ## Edits -/

/-- An edit of a document. -/
inductive Edit where
  | addFlow (f : Flow)
  | insertFlow (index : Nat) (f : Flow)
  | removeFlow (id : Nat)
  | duplicateFlow (id : Nat)
  | addInputSource (id : Nat) (source : Source)
  | removeInputSource (id index : Nat)
  | addRawInput (shape : Shape)
  | setRawInput (slot : Nat) (shape : Shape)
deriving DecidableEq

/-- The number of a flow once another one is inserted at an index. -/
def placeAfter (index id : Nat) : Nat := if index ≤ id then id + 1 else id

theorem getElem?_insertIdx_placeAfter {α : Type} (xs : List α) (index id : Nat) (x : α) :
    (xs.insertIdx index x)[placeAfter index id]? = xs[id]? := by
  rw [placeAfter]
  split
  · next hle => rw [List.getElem?_insertIdx_of_gt (by omega), Nat.add_sub_cancel]
  · next hlt => rw [List.getElem?_insertIdx_of_lt (by omega)]

theorem placeAfter_injective (index : Nat) : Function.Injective (placeAfter index) := by
  intro id id' h
  simp only [placeAfter] at h
  split at h <;> split at h <;> omega

/-- The flow with references renumbered after an insertion at an index. -/
def Flow.shifted (index : Nat) (f : Flow) : Flow :=
  f.withInputs (f.inputs.map (Source.renumber (placeAfter index)))

/-- The copy of a flow, before references are renumbered. -/
def Flow.copy (f : Flow) : Flow := .fresh (f.label ++ " copy") f.inputs f.layers

namespace Edit

/-- The edit as an operation of a graph; what it answers does not matter here. -/
def run : Edit → Op Failure Graph Unit
  | .addFlow f => do
    let _ ← Graph.addFlow f
  | .insertFlow index f => do
    let _ ← Graph.insertFlow index f
  | .removeFlow id => do
    let _ ← Graph.removeFlow id
  | .duplicateFlow id => do
    let _ ← Graph.duplicateFlow id
  | .addInputSource id source => Graph.addInputSource id source
  | .removeInputSource id index => do
    let _ ← Graph.removeInputSource id index
  | .addRawInput shape => do
    let _ ← Graph.addRawInput shape
  | .setRawInput slot shape => Graph.setRawInput slot shape

/-- What an edit names has to exist among so many flows. -/
def Applies (count : Nat) : Edit → Prop
  | .insertFlow index _ => index ≤ count
  | .removeFlow id | .duplicateFlow id | .addInputSource id _ | .removeInputSource id _ =>
    id < count
  | .addFlow _ | .addRawInput _ | .setRawInput _ _ => True

/-- What an edit that applies makes of the flows. -/
def change (flows : List Flow) : Edit → List Flow
  | .addFlow f => flows ++ [f]
  | .insertFlow index f => (flows.insertIdx index f).map (Flow.shifted index)
  | .removeFlow id =>
    (flows.eraseIdx id).map fun f => f.withInputs (Graph.dropSource id f.inputs)
  | .duplicateFlow id =>
    match flows[id]? with
    | some f => (flows.insertIdx (id + 1) f.copy).map (Flow.shifted (id + 1))
    | none => flows
  | .addInputSource id source => flows.modify id fun f => f.withInputs (f.inputs ++ [source])
  | .removeInputSource id index => flows.modify id fun f => f.withInputs (f.inputs.eraseIdx index)
  | .addRawInput _ | .setRawInput _ _ => flows

/-- What an edit that is accepted leaves of a graph. -/
structure Edited (e : Edit) (g g' : Graph) : Prop where
  applies : e.Applies g.size
  flows : g'.flows = (e.change g.flows).map Flow.reset
  sound : Graph.Sound g.rawInputs.length g.flows → Graph.Sound g'.rawInputs.length g'.flows

end Edit

/-! ## Renumbering after an insertion -/

/-- The number of the flow that a source names has a successor in the machine. -/
def Source.HasNext : Source → Prop
  | .raw _ => True
  | .flow id => Size.Fits (id + 1)

instance : DecidablePred Source.HasNext
  | .raw _ => .isTrue trivial
  | .flow id => inferInstanceAs (Decidable (Size.Fits (id + 1)))

theorem Source.Exists.hasNext {rawCount count : Nat} {s : Source} (h : s.Exists rawCount count)
    (hcount : Size.Fits count) : s.HasNext := by
  cases s with
  | raw slot => trivial
  | flow id => exact Nat.lt_of_le_of_lt (Nat.succ_le_of_lt h) hcount

namespace Graph

theorem shiftSource_of_hasNext {s : Source} (h : s.HasNext) (index : Nat) :
    shiftSource index s = .ok (s.renumber (placeAfter index)) := by
  cases s with
  | raw slot => rfl
  | flow id =>
    rw [shiftSource, Source.renumber, placeAfter]
    split
    · rw [Size.add, Size.check_of_fits h]
      rfl
    · rfl

theorem shiftFlow_of_hasNext {f : Flow} (h : ∀ s ∈ f.inputs, s.HasNext) (index : Nat) :
    shiftFlow index f = .ok (f.shifted index) := by
  have hsources : f.inputs.mapM (shiftSource index) =
      .ok (f.inputs.map (Source.renumber (placeAfter index))) :=
    Traversal.mapM_eq_ok_map fun s hs => shiftSource_of_hasNext (h s hs) index
  rw [shiftFlow, hsources]
  rfl

theorem shiftSource_eq_ok {index : Nat} {s s' : Source} (h : shiftSource index s = .ok s') :
    s' = s.renumber (placeAfter index) := by
  cases s with
  | raw slot =>
    cases h
    rfl
  | flow id =>
    rw [shiftSource] at h
    simp only [Source.renumber, placeAfter]
    split at h
    · next hle =>
      obtain ⟨next, hnext, heq⟩ := Traversal.bind_eq_ok_iff.mp h
      obtain ⟨-, rfl⟩ := Size.check_eq_ok_iff.mp hnext
      rw [Traversal.pure_eq_ok_iff.mp heq, if_pos hle]
    · next hle =>
      cases h
      rw [if_neg hle]

theorem shiftFlow_eq_ok {index : Nat} {f f' : Flow} (h : shiftFlow index f = .ok f') :
    f' = f.shifted index := by
  obtain ⟨inputs, hinputs, heq⟩ := Traversal.bind_eq_ok_iff.mp h
  rw [Traversal.pure_eq_ok_iff.mp heq, Flow.shifted,
    Traversal.eq_map_of_mapM hinputs fun _ _ => shiftSource_eq_ok]

/-- A flow of the old list reads the same flows at their new places, and nobody reads the new
one. -/
theorem reads_insertIdx {flows : List Flow} {index : Nat} {f : Flow} {reader source : Nat}
    (h : (referencesOf ((flows.insertIdx index f).map (Flow.shifted index))).Reads reader source) :
    ∃ old, source = placeAfter index old ∧
      ∀ id, reader = placeAfter index id → (referencesOf flows).Reads id old := by
  obtain ⟨f', hf', hmem⟩ := reads_iff.mp h
  rw [List.getElem?_map] at hf'
  obtain ⟨g, hg, rfl⟩ := Option.map_eq_some_iff.mp hf'
  obtain ⟨read, hread, heq⟩ := List.mem_map.mp hmem
  cases read with
  | raw slot => cases heq
  | flow old =>
    cases heq
    refine ⟨old, rfl, ?_⟩
    rintro id rfl
    rw [getElem?_insertIdx_placeAfter] at hg
    exact reads_iff.mpr ⟨g, hg, hread⟩

/-- Inserting a flow closes no cycle, whatever it reads. -/
theorem acyclic_insertIdx {flows : List Flow} (h : (referencesOf flows).Acyclic) (index : Nat)
    (f : Flow) :
    (referencesOf ((flows.insertIdx index f).map (Flow.shifted index))).Acyclic := by
  -- Chains from an old flow stay among the old flows.
  have hold : ∀ {id stop : Nat}, Relation.TransGen (referencesOf
      ((flows.insertIdx index f).map (Flow.shifted index))).Reads (placeAfter index id) stop →
      ∃ old, stop = placeAfter index old ∧
        Relation.TransGen (referencesOf flows).Reads id old := by
    intro id stop hchain
    induction hchain with
    | single hread =>
      obtain ⟨old, rfl, hreads⟩ := reads_insertIdx hread
      exact ⟨old, rfl, .single (hreads id rfl)⟩
    | tail _ hread ih =>
      obtain ⟨middle, rfl, hmiddle⟩ := ih
      obtain ⟨old, rfl, hreads⟩ := reads_insertIdx hread
      exact ⟨old, rfl, hmiddle.tail (hreads middle rfl)⟩
  intro id hcycle
  obtain ⟨_, -, hread⟩ := Relation.TransGen.tail'_iff.mp hcycle
  obtain ⟨old, rfl, -⟩ := reads_insertIdx hread
  obtain ⟨again, heq, hchain⟩ := hold hcycle
  rw [← placeAfter_injective index heq] at hchain
  exact h old hchain

/-- A source exists among the flows with a new one exactly if it existed before. -/
theorem exists_renumber_placeAfter {rawCount count index : Nat} (hindex : index ≤ count)
    {s : Source} :
    (s.renumber (placeAfter index)).Exists rawCount (count + 1) ↔ s.Exists rawCount count := by
  cases s with
  | raw slot => exact Iff.rfl
  | flow id =>
    simp only [Source.renumber, Source.Exists, placeAfter]
    split <;> omega

/-- Inserting a flow whose sources exist keeps a document sound. -/
theorem Sound.insertIdx {rawCount : Nat} {flows : List Flow} (h : Sound rawCount flows)
    {index : Nat} (hindex : index ≤ flows.length) {f : Flow}
    (hinputs : ∀ s ∈ f.inputs, s.Exists rawCount flows.length) :
    Sound rawCount ((flows.insertIdx index f).map (Flow.shifted index)) := by
  refine ⟨fun f' hf' s hs => ?_, acyclic_insertIdx h.acyclic index f⟩
  obtain ⟨old, hold, rfl⟩ := List.mem_map.mp hf'
  obtain ⟨source, hsource, rfl⟩ := List.mem_map.mp hs
  rw [List.length_map, List.length_insertIdx_of_le_length hindex,
    exists_renumber_placeAfter hindex]
  rcases List.eq_or_mem_of_mem_insertIdx hold with rfl | hmem
  · exact hinputs source hsource
  · exact h.sources old hmem source hsource

/-! ## Edits that are accepted -/

theorem sound_resetAll {g : Graph} (h : Sound g.rawInputs.length g.flows) :
    Sound g.resetAll.rawInputs.length g.resetAll.flows := by
  refine h.congr ?_
  show (g.flows.map Flow.reset).map Flow.inputs = _
  rw [List.map_map]
  rfl

/-- An edit of the list of flows is accepted exactly if the new list is sound. -/
theorem yields_editFlows {change : List Flow → Except Failure (List Flow)} {g g' : Graph}
    {a : Unit} : (editFlows change).Yields g a g' ↔ ∃ flows, change g.flows = .ok flows ∧
      Sound g.rawInputs.length flows ∧ g' = { g with flows := flows }.resetAll := by
  simp only [editFlows_eq, yields_bind, yields_get, yields_ofExcept, yields_set]
  constructor
  · rintro ⟨_, _, ⟨rfl, rfl⟩, flows, _, ⟨hflows, rfl⟩, _, _, ⟨hcheck, rfl⟩, rfl⟩
    exact ⟨flows, hflows, checkStructure_eq_ok_iff_sound.mp hcheck, rfl⟩
  · rintro ⟨flows, hflows, hsound, rfl⟩
    exact ⟨g, g, ⟨rfl, rfl⟩, flows, g, ⟨hflows, rfl⟩, (), g,
      ⟨checkStructure_eq_ok_iff_sound.mpr hsound, rfl⟩, rfl⟩

/-- An edit of the list of flows is refused if there is no new list or if it is not in order. -/
theorem fails_editFlows {change : List Flow → Except Failure (List Flow)} {g g' : Graph}
    {e : Failure} : (editFlows change).Fails g e g' ↔ g' = g ∧
      (change g.flows = .error e ∨ ∃ flows, change g.flows = .ok flows ∧
        checkStructure g.rawInputs.length flows = .error e) := by
  rw [editFlows_eq, fails_get_bind, fails_bind, fails_ofExcept]
  constructor
  · rintro (⟨hchange, rfl⟩ | ⟨flows, _, hchange, hrest⟩)
    · exact ⟨rfl, .inl hchange⟩
    · obtain ⟨hchange, rfl⟩ := yields_ofExcept.mp hchange
      rcases fails_bind.mp hrest with hcheck | ⟨_, _, -, hset⟩
      · obtain ⟨hcheck, rfl⟩ := fails_ofExcept.mp hcheck
        exact ⟨rfl, .inr ⟨flows, hchange, hcheck⟩⟩
      · exact absurd hset fails_set.mp
  · rintro ⟨rfl, hchange | ⟨flows, hchange, hcheck⟩⟩
    · exact .inl ⟨hchange, rfl⟩
    · refine .inr ⟨flows, g', yields_ofExcept.mpr ⟨hchange, rfl⟩, ?_⟩
      exact fails_bind.mpr (.inl (fails_ofExcept.mpr ⟨hcheck, rfl⟩))

theorem yields_addFlow {f : Flow} {g g' : Graph} {a : Nat}
    (h : (Graph.addFlow f).Yields g a g') : Sound g.rawInputs.length (g.flows ++ [f]) ∧
      g' = { g with flows := g.flows ++ [f] }.resetAll := by
  simp only [Graph.addFlow, yields_bind, yields_get, yields_say, yields_pure,
    yields_editFlows] at h
  obtain ⟨_, _, ⟨rfl, rfl⟩, _, _, ⟨_, ⟨⟩, hsound, rfl⟩, _, _, rfl, -, rfl⟩ := h
  exact ⟨hsound, rfl⟩

theorem yields_insertFlow {index : Nat} {f : Flow} {g g' : Graph} {a : Nat}
    (h : (Graph.insertFlow index f).Yields g a g') : index ≤ g.size ∧
      Sound g.rawInputs.length ((g.flows.insertIdx index f).map (Flow.shifted index)) ∧
      g' = { g with flows := (g.flows.insertIdx index f).map (Flow.shifted index) }.resetAll := by
  have hinsert := yields_get_bind.mp h
  split at hinsert
  · next hindex =>
    simp only [yields_bind, yields_say, yields_pure, yields_editFlows] at hinsert
    obtain ⟨_, _, ⟨flows, hflows, hsound, rfl⟩, _, _, rfl, -, rfl⟩ := hinsert
    obtain rfl := Traversal.eq_map_of_mapM hflows fun _ _ => shiftFlow_eq_ok
    exact ⟨hindex, hsound, rfl⟩
  · exact absurd hinsert yields_fail.mp

theorem yields_removeFlow {id : Nat} {g g' : Graph} {a : Flow}
    (h : (Graph.removeFlow id).Yields g a g') : id < g.size ∧
      g' = { g with flows := (g.flows.eraseIdx id).map fun (f : Flow) =>
        f.withInputs (dropSource id f.inputs) }.resetAll := by
  simp only [Graph.removeFlow, yields_bind, yields_get, yields_ofExcept, yields_note, yields_set,
    yields_say, yields_pure] at h
  obtain ⟨_, _, ⟨rfl, rfl⟩, removed, _, ⟨hremoved, rfl⟩, _, _, rfl, _, _, rfl, _, _, rfl, -, rfl⟩ :=
    h
  exact ⟨(List.getElem?_eq_some_iff.mp (flow_eq_ok_iff.mp hremoved)).1, rfl⟩

theorem yields_duplicateFlow {id : Nat} {g g' : Graph} {a : Nat}
    (h : (Graph.duplicateFlow id).Yields g a g') :
    ∃ f, g.flows[id]? = some f ∧ (Graph.insertFlow (id + 1) f.copy).Yields g a g' := by
  have hcopy := yields_get_bind.mp h
  obtain ⟨f, _, hf, hinsert⟩ := yields_bind.mp hcopy
  obtain ⟨hf, rfl⟩ := yields_ofExcept.mp hf
  exact ⟨f, flow_eq_ok_iff.mp hf, hinsert⟩

theorem set_eq_modify {flows : List Flow} {id : Nat} {f : Flow} (hf : flows[id]? = some f)
    (change : Flow → Flow) : flows.set id (change f) = flows.modify id change := by
  rw [List.modify_eq_set_getElem?, hf]
  rfl

theorem yields_addInputSource {id : Nat} {source : Source} {g g' : Graph} {a : Unit}
    (h : (Graph.addInputSource id source).Yields g a g') : id < g.size ∧
      Sound g.rawInputs.length
        (g.flows.modify id fun f => f.withInputs (f.inputs ++ [source])) ∧
      g' = { g with flows := g.flows.modify id fun f =>
        f.withInputs (f.inputs ++ [source]) }.resetAll := by
  simp only [Graph.addInputSource, yields_bind, yields_get, yields_ofExcept, yields_mapError,
    yields_editFlows] at h
  obtain ⟨_, _, ⟨rfl, rfl⟩, f, _, ⟨hf, rfl⟩, _, ⟨⟩, hsound, rfl⟩ := h
  have hflow := flow_eq_ok_iff.mp hf
  rw [set_eq_modify hflow fun f => f.withInputs (f.inputs ++ [source])] at hsound ⊢
  exact ⟨(List.getElem?_eq_some_iff.mp hflow).1, hsound, rfl⟩

theorem yields_removeInputSource {id index : Nat} {g g' : Graph} {a : Source}
    (h : (Graph.removeInputSource id index).Yields g a g') : id < g.size ∧
      g' = { g with flows := g.flows.modify id fun f =>
        f.withInputs (f.inputs.eraseIdx index) }.resetAll := by
  have hremove := yields_get_bind.mp h
  obtain ⟨f, _, hf, hset⟩ := yields_bind.mp hremove
  obtain ⟨hf, rfl⟩ := yields_ofExcept.mp hf
  have hflow := flow_eq_ok_iff.mp hf
  split at hset
  · simp only [yields_bind, yields_set, yields_pure] at hset
    obtain ⟨_, _, rfl, -, rfl⟩ := hset
    refine ⟨(List.getElem?_eq_some_iff.mp hflow).1, ?_⟩
    rw [setFlow, set_eq_modify hflow fun f => f.withInputs (f.inputs.eraseIdx index)]
  · exact absurd hset yields_fail.mp

/-- Taking a source away from a flow keeps a document sound. -/
theorem Sound.modify_eraseIdx {rawCount : Nat} {flows : List Flow} (h : Sound rawCount flows)
    {id : Nat} (hid : id < flows.length) (index : Nat) :
    Sound rawCount (flows.modify id fun f => f.withInputs (f.inputs.eraseIdx index)) := by
  rw [← set_eq_modify (List.getElem?_eq_getElem hid)]
  exact h.set_of_subset (List.getElem?_eq_getElem hid) fun s hs => List.mem_of_mem_eraseIdx hs

end Graph

namespace Edit

open LayerFlow.Graph

variable {e : Edit} {g g' : Graph}

/-- An edit that is accepted makes its change to a document that it keeps sound, and forgets the
analysis and every build. -/
theorem resetAll_of_yields (h : e.run.Yields g () g') : ∃ rawInputs : List Shape,
    e.Applies g.size ∧
      (Sound g.rawInputs.length g.flows → Sound rawInputs.length (e.change g.flows)) ∧
      g' = Graph.resetAll { g with rawInputs := rawInputs, flows := e.change g.flows } := by
  cases e with
  | addFlow f =>
    obtain ⟨_, hadd⟩ := yields_of_discard h
    obtain ⟨hsound, hg'⟩ := yields_addFlow hadd
    exact ⟨g.rawInputs, trivial, fun _ => hsound, hg'⟩
  | insertFlow index f =>
    obtain ⟨_, hinsert⟩ := yields_of_discard h
    obtain ⟨hindex, hsound, hg'⟩ := yields_insertFlow hinsert
    exact ⟨g.rawInputs, hindex, fun _ => hsound, hg'⟩
  | removeFlow id =>
    obtain ⟨_, hremove⟩ := yields_of_discard h
    obtain ⟨hid, hg'⟩ := yields_removeFlow hremove
    exact ⟨g.rawInputs, hid, fun h => h.eraseIdx hid, hg'⟩
  | duplicateFlow id =>
    obtain ⟨_, hcopy⟩ := yields_of_discard h
    obtain ⟨f, hf, hinsert⟩ := yields_duplicateFlow hcopy
    obtain ⟨-, hsound, hg'⟩ := yields_insertFlow hinsert
    refine ⟨g.rawInputs, (List.getElem?_eq_some_iff.mp hf).1, ?_⟩
    rw [change, hf]
    exact ⟨fun _ => hsound, hg'⟩
  | addInputSource id source =>
    obtain ⟨hid, hsound, hg'⟩ := yields_addInputSource h
    exact ⟨g.rawInputs, hid, fun _ => hsound, hg'⟩
  | removeInputSource id index =>
    obtain ⟨_, hremove⟩ := yields_of_discard h
    obtain ⟨hid, hg'⟩ := yields_removeInputSource hremove
    exact ⟨g.rawInputs, hid, fun h => h.modify_eraseIdx hid index, hg'⟩
  | addRawInput shape =>
    simp only [run, Graph.addRawInput, yields_bind, yields_get, yields_set, yields_pure] at h
    obtain ⟨_, _, ⟨_, _, ⟨rfl, rfl⟩, _, _, rfl, -, rfl⟩, -, rfl⟩ := h
    exact ⟨_, trivial, fun h => h.mono (by simp), rfl⟩
  | setRawInput slot shape =>
    have hset := yields_get_bind.mp h
    split at hset
    · exact ⟨_, trivial, fun h => h.mono (by simp), yields_set.mp hset⟩
    · exact absurd hset yields_fail.mp

/-- What an edit that is accepted leaves of a graph. -/
theorem edited_of_yields (h : e.run.Yields g () g') : e.Edited g g' := by
  obtain ⟨rawInputs, happlies, hsound, rfl⟩ := resetAll_of_yields h
  exact ⟨happlies, rfl, fun h =>
    sound_resetAll (g := { g with rawInputs := rawInputs, flows := e.change g.flows }) (hsound h)⟩

end Edit

/-! ## Edits that are refused -/

namespace Graph

theorem eq_of_fails_editFlows {change : List Flow → Except Failure (List Flow)} {g g' : Graph}
    {err : Failure} (h : (editFlows change).Fails g err g') : g' = g :=
  (fails_editFlows.mp h).1

theorem eq_of_fails_insertFlow {index : Nat} {f : Flow} {g g' : Graph} {err : Failure}
    (h : (Graph.insertFlow index f).Fails g err g') : g' = g := by
  have hinsert := fails_get_bind.mp h
  split at hinsert
  · rcases fails_bind.mp hinsert with hedit | ⟨_, _, -, hlog⟩
    · exact eq_of_fails_editFlows hedit
    · simp [fails_bind] at hlog
  · exact (fails_fail.mp hinsert).2

theorem eq_of_fails_flow {α : Type} {id : Nat} {next : Graph → Flow → Op Failure Graph α}
    {g g' : Graph} {err : Failure}
    (h : (Op.get >>= fun g => Op.ofExcept (g.flow id) >>= next g).Fails g err g')
    (hnext : ∀ f, g.flows[id]? = some f → (next g f).Fails g err g' → g' = g) : g' = g := by
  have hrest := fails_get_bind.mp h
  rcases fails_bind.mp hrest with hflow | ⟨f, _, hflow, hrest⟩
  · exact (fails_ofExcept.mp hflow).2
  · obtain ⟨hflow, rfl⟩ := yields_ofExcept.mp hflow
    exact hnext f (flow_eq_ok_iff.mp hflow) hrest

end Graph

namespace Edit

open LayerFlow.Graph

variable {e : Edit} {g g' : Graph} {err : Failure}

/-- An edit that is refused changes nothing. -/
theorem eq_of_fails (h : e.run.Fails g err g') : g' = g := by
  cases e with
  | addFlow f =>
    have hedit := fails_get_bind.mp (fails_of_discard h)
    rcases fails_bind.mp hedit with hedit | ⟨_, _, -, hlog⟩
    · exact eq_of_fails_editFlows hedit
    · simp [fails_bind] at hlog
  | insertFlow index f => exact eq_of_fails_insertFlow (fails_of_discard h)
  | removeFlow id =>
    refine eq_of_fails_flow (fails_of_discard h) fun f _ hrest => ?_
    -- Once the flow is found nothing can fail any more.
    simp [fails_bind] at hrest
  | duplicateFlow id =>
    exact eq_of_fails_flow (fails_of_discard h) fun f _ hinsert => eq_of_fails_insertFlow hinsert
  | addInputSource id source =>
    refine eq_of_fails_flow h fun f _ hedit => ?_
    obtain ⟨_, hedit, -⟩ := fails_mapError.mp hedit
    exact eq_of_fails_editFlows hedit
  | removeInputSource id index =>
    refine eq_of_fails_flow (fails_of_discard h) fun f _ hrest => ?_
    split at hrest
    · simp [fails_bind] at hrest
    · exact (fails_fail.mp hrest).2
  | addRawInput shape =>
    simp [run, Graph.addRawInput, fails_bind] at h
  | setRawInput slot shape =>
    have hset := fails_get_bind.mp h
    split at hset
    · exact absurd hset fails_set.mp
    · exact (fails_fail.mp hset).2

end Edit

end LayerFlow
