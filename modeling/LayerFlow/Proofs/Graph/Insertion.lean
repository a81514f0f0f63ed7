/-
LayerFlow.Proofs.Graph.Insertion

Which flows can be inserted.  The sources of a new flow are renumbered before they are checked, and
renumbering neither hides a source that does not exist nor makes one up: the check in the new
numbering is that of the sources in the old one.  Only the highest number of the machine has no new
number.

Main statement: `insertFlow_exact`.
-/
import LayerFlow.Proofs.Graph.Checking
import LayerFlow.Proofs.Graph.Renumbering

namespace LayerFlow.Graph

open Op Traversal

variable {g g' : Graph} {index : Nat} {f : Flow} {e : Failure}

/-! ## Insertions that are refused -/

/-- At an index that exists, an insertion fails as the edit of the list of flows does. -/
theorem fails_insertFlow_iff (hindex : index ≤ g.size) :
    (Graph.insertFlow index f).Fails g e g' ↔ g' = g ∧
      ((g.flows.insertIdx index f).mapM (shiftFlow index) = .error e ∨
        ∃ flows, (g.flows.insertIdx index f).mapM (shiftFlow index) = .ok flows ∧
          checkStructure g.rawInputs.length flows = .error e) := by
  rw [Graph.insertFlow, fails_get_bind, if_pos hindex, fails_bind, fails_editFlows]
  refine or_iff_left ?_
  rintro ⟨_, _, -, hlog⟩
  simp [fails_bind] at hlog

/-- Renumbering fails in one way only. -/
theorem shiftSource_eq_error {s : Source} (h : shiftSource index s = .error e) : e = .overflow := by
  cases s with
  | raw slot => cases h
  | flow id =>
    rw [shiftSource] at h
    split at h
    · rcases bind_eq_error_iff.mp h with hnext | ⟨_, -, hpure⟩
      · rw [Size.add, Size.check] at hnext
        split at hnext
        · cases hnext
        · cases hnext
          rfl
      · cases hpure
    · cases h

theorem shiftFlow_eq_error (h : shiftFlow index f = .error e) : e = .overflow := by
  rcases bind_eq_error_iff.mp h with hinputs | ⟨_, -, hpure⟩
  · obtain ⟨s, -, hs⟩ := exists_of_mapM_eq_error hinputs
    exact shiftSource_eq_error hs
  · cases hpure

/-- A source that is renumbered has a successor, unless it comes before the index. -/
theorem hasNext_of_shiftSource (hindex : Size.Fits index) {s s' : Source}
    (h : shiftSource index s = .ok s') : s.HasNext := by
  cases s with
  | raw slot => trivial
  | flow id =>
    rw [shiftSource] at h
    split at h
    · obtain ⟨next, hnext, -⟩ := bind_eq_ok_iff.mp h
      exact (Size.check_eq_ok_iff.mp hnext).1
    · next hlt => exact Nat.lt_of_le_of_lt (Nat.lt_of_not_le hlt) hindex

/-- A list of flows of which one names the highest number of the machine cannot be renumbered. -/
theorem shiftFlows_eq_overflow {flows : List Flow} (hindex : Size.Fits index) (hf : f ∈ flows)
    {s : Source} (hs : s ∈ f.inputs) (htop : ¬ s.HasNext) :
    flows.mapM (shiftFlow index) = .error .overflow := by
  cases h : flows.mapM (shiftFlow index) with
  | error e =>
    obtain ⟨old, -, hold⟩ := exists_of_mapM_eq_error h
    rw [shiftFlow_eq_error hold]
  | ok shifted =>
    obtain ⟨f', -, hf'⟩ := exists_mem_of_mapM h hf
    obtain ⟨inputs, hinputs, -⟩ := bind_eq_ok_iff.mp hf'
    obtain ⟨s', -, hs'⟩ := exists_mem_of_mapM hinputs hs
    exact absurd (hasNext_of_shiftSource hindex hs') htop

theorem mem_of_getElem?_insertIdx {α : Type} {xs : List α} {id : Nat} {x y : α}
    (h : (xs.insertIdx index x)[id]? = some y) (hne : id ≠ index) : y ∈ xs := by
  rcases Nat.lt_or_gt_of_ne hne with hlt | hgt
  · rw [List.getElem?_insertIdx_of_lt hlt] at h
    exact List.mem_of_getElem? h
  · rw [List.getElem?_insertIdx_of_gt hgt] at h
    exact List.mem_of_getElem? h

/-- The sources of a new flow exist in the document with the flow exactly if they existed before
it. -/
theorem exists_of_inserted {rawCount : Nat} {flows : List Flow} (hindex : index ≤ flows.length)
    (h : SourcesExist rawCount ((flows.insertIdx index f).map (Flow.shifted index))) :
    ∀ s ∈ f.inputs, s.Exists rawCount flows.length := by
  intro s hs
  have hexists := h (f.shifted index)
    (List.mem_map_of_mem ((List.mem_insertIdx hindex).mpr (.inl rfl))) _ (List.mem_map_of_mem hs)
  rwa [List.length_map, List.length_insertIdx_of_le_length hindex,
    exists_renumber_placeAfter hindex] at hexists

/-- In a sound document with one more flow, a source that does not exist is one of that flow. -/
theorem Sound.exists_missing_inserted {rawCount : Nat} {flows : List Flow}
    (h : Sound rawCount flows) (hindex : index ≤ flows.length)
    (hmissing : ¬ ∀ s ∈ f.inputs, s.Exists rawCount flows.length) :
    ∃ s ∈ f.inputs, ¬ s.Exists rawCount flows.length ∧
      checkStructure rawCount ((flows.insertIdx index f).map (Flow.shifted index)) =
        .error (.badSource ((s.renumber (placeAfter index)).fault rawCount index)) := by
  obtain ⟨id, position, _, hfirst⟩ := exists_firstMissing (mt (exists_of_inserted hindex) hmissing)
  obtain ⟨f', hf', hs'⟩ := hfirst.stands
  rw [List.getElem?_map] at hf'
  obtain ⟨old, hold, rfl⟩ := Option.map_eq_some_iff.mp hf'
  obtain ⟨s, hs, rfl⟩ := List.mem_map.mp (List.mem_of_getElem? hs')
  have hgone := hfirst.missing
  rw [List.length_map, List.length_insertIdx_of_le_length hindex,
    exists_renumber_placeAfter hindex] at hgone
  -- The sources of the old flows all exist, so the flow is the new one.
  have hid : id = index := by
    by_contra hne
    exact hgone (h.sources old (mem_of_getElem?_insertIdx hold hne) s hs)
  subst hid
  rw [List.getElem?_insertIdx_self, if_pos hindex] at hold
  obtain rfl := Option.some.inj hold
  exact ⟨s, hs, hgone, hfirst.checkStructure_eq⟩

theorem fails_insertFlow_behind (h : g.size < index) :
    (Graph.insertFlow index f).Fails g (.flowNotFound index) g := by
  refine fails_get_bind.mpr ?_
  rw [if_neg (Nat.not_le_of_lt h)]
  exact fails_fail.mpr ⟨rfl, rfl⟩

/-- A flow with a source that does not exist is refused, if its sources can be renumbered. -/
theorem Sound.fails_insertFlow (h : Sound g.rawInputs.length g.flows) (hcount : Size.Fits g.size)
    (hindex : index ≤ g.size) (hmissing : ¬ ∀ s ∈ f.inputs, s.Exists g.rawInputs.length g.size)
    (hnext : ∀ s ∈ f.inputs, s.HasNext) : ∃ s ∈ f.inputs, ¬ s.Exists g.rawInputs.length g.size ∧
      (Graph.insertFlow index f).Fails g
        (.badSource ((s.renumber (placeAfter index)).fault g.rawInputs.length index)) g := by
  obtain ⟨s, hs, hgone, hcheck⟩ := h.exists_missing_inserted hindex hmissing
  refine ⟨s, hs, hgone, (fails_insertFlow_iff hindex).mpr ⟨rfl, .inr ⟨_, ?_, hcheck⟩⟩⟩
  refine mapM_eq_ok_map fun old hold => shiftFlow_of_hasNext (fun other hother => ?_) index
  rcases List.eq_or_mem_of_mem_insertIdx hold with rfl | hmem
  · exact hnext other hother
  · exact (h.sources old hmem other hother).hasNext hcount

theorem fails_insertFlow_overflow (hcount : Size.Fits g.size) (hindex : index ≤ g.size)
    {s : Source} (hs : s ∈ f.inputs) (htop : ¬ s.HasNext) :
    (Graph.insertFlow index f).Fails g .overflow g := by
  refine (fails_insertFlow_iff hindex).mpr ⟨rfl, .inl ?_⟩
  exact shiftFlows_eq_overflow (Nat.lt_of_le_of_lt hindex hcount)
    ((List.mem_insertIdx hindex).mpr (.inl rfl)) hs htop

/-- An insertion closes no cycle. -/
theorem Sound.not_fails_cycle (h : Sound g.rawInputs.length g.flows) {reader source : Nat} :
    ¬ (Graph.insertFlow index f).Fails g (.cycle reader source) g' := by
  intro hfails
  by_cases hindex : index ≤ g.size
  · obtain ⟨-, hshift | ⟨flows, hshift, hcheck⟩⟩ := (fails_insertFlow_iff hindex).mp hfails
    · obtain ⟨old, -, hold⟩ := exists_of_mapM_eq_error hshift
      cases shiftFlow_eq_error hold
    · obtain rfl := eq_map_of_mapM hshift fun _ _ => shiftFlow_eq_ok
      exact acyclic_referencesOf_iff.mp (acyclic_insertIdx h.acyclic index f)
        (cyclic_of_checkStructure hcheck)
  · have hbehind : (Graph.insertFlow index f).Fails g (.flowNotFound index) g :=
      fails_insertFlow_behind (Nat.lt_of_not_le hindex)
    rw [Fails, hbehind.1] at hfails
    cases hfails.1

/-! ## Every insertion -/

/-- What an insertion answers, whatever the new flow reads.  It is accepted exactly if the index
comes no later than the end and every source exists in the numbering before the insertion.  A later
index is refused as a flow that does not exist; a source that does not exist is refused under its
new number; either way nothing changes.  No insertion is refused for a cycle.  A source that names
the highest number of the machine has no new number, and renumbering it overflows. -/
theorem insertFlow_exact {g : Graph} (h : g.Reachable) (hcount : Size.Fits g.size) (index : Nat)
    (f : Flow) :
    ((∃ answer g', (Graph.insertFlow index f).Yields g answer g') ↔
      index ≤ g.size ∧ ∀ s ∈ f.inputs, s.Exists g.rawInputs.length g.size) ∧
    (∀ answer g', (Graph.insertFlow index f).Yields g answer g' →
      answer = index ∧ g' = g.inserted index f) ∧
    (g.size < index → (Graph.insertFlow index f).Fails g (.flowNotFound index) g) ∧
    (index ≤ g.size → (¬ ∀ s ∈ f.inputs, s.Exists g.rawInputs.length g.size) →
      (∀ s ∈ f.inputs, s.HasNext) → ∃ s ∈ f.inputs, ¬ s.Exists g.rawInputs.length g.size ∧
        (Graph.insertFlow index f).Fails g
          (.badSource ((s.renumber (placeAfter index)).fault g.rawInputs.length index)) g) ∧
    (index ≤ g.size → (∃ s ∈ f.inputs, ¬ s.HasNext) →
      ((Graph.insertFlow index f).run g).result = .error .overflow) ∧
    ∀ reader source g', ¬ (Graph.insertFlow index f).Fails g (.cycle reader source) g' := by
  have hsound := h.wellFormed.sound
  have hexact : (∃ answer g', (Graph.insertFlow index f).Yields g answer g') ↔
      index ≤ g.size ∧ ∀ s ∈ f.inputs, s.Exists g.rawInputs.length g.size := by
    constructor
    · rintro ⟨answer, g', hinsert⟩
      obtain ⟨hindex, hinserted, -⟩ := yields_insertFlow hinsert
      exact ⟨hindex, exists_of_inserted hindex hinserted.sources⟩
    · rintro ⟨hindex, hinputs⟩
      exact ⟨index, _, hsound.yields_insertFlow hcount hindex hinputs⟩
  refine ⟨hexact, fun answer g' hinsert => ?_, fails_insertFlow_behind,
    fun hindex hmissing hnext => hsound.fails_insertFlow hcount hindex hmissing hnext,
    fun hindex htop => ?_, fun _ _ _ => hsound.not_fails_cycle⟩
  · obtain ⟨hindex, hinputs⟩ := hexact.mp ⟨answer, g', hinsert⟩
    exact (hsound.yields_insertFlow hcount hindex hinputs).unique hinsert
  · obtain ⟨s, hs, htop⟩ := htop
    exact (fails_insertFlow_overflow hcount hindex hs htop).1

/-- Between the trunk and the left branch: a flow that reads the last flow goes in, one that reads a
flow behind it does not, and one that reads the flow with the highest number overflows. -/
theorem insertFlow_exact_diamond :
    (∃ answer g', (Graph.insertFlow 1 (.fresh "side" [.flow 3] [])).Yields diamond answer g') ∧
    (∃ s, (Graph.insertFlow 1 (.fresh "side" [.flow 4] [])).Fails diamond
      (.badSource (Source.fault 1 1 s)) diamond) ∧
    ((Graph.insertFlow 1 (.fresh "side" [.flow 0xffffffffffffffff] [])).run diamond).result =
      .error .overflow ∧
    (Graph.insertFlow 5 (.fresh "side" [] [])).Fails diamond (.flowNotFound 5) diamond := by
  have hcount : Size.Fits diamond.size := by decide
  obtain ⟨haccepted, -⟩ := insertFlow_exact reachable_diamond hcount 1 (.fresh "side" [.flow 3] [])
  obtain ⟨-, -, -, hrefused, -⟩ :=
    insertFlow_exact reachable_diamond hcount 1 (.fresh "side" [.flow 4] [])
  obtain ⟨-, -, -, -, htop, -⟩ := insertFlow_exact reachable_diamond hcount 1
    (.fresh "side" [.flow 0xffffffffffffffff] [])
  obtain ⟨-, -, hbehind, -⟩ := insertFlow_exact reachable_diamond hcount 5 (.fresh "side" [] [])
  refine ⟨haccepted.mpr ⟨by decide, by decide⟩, ?_, ?_, hbehind (by decide)⟩
  · obtain ⟨s, -, -, hfails⟩ := hrefused (by decide) (by decide) (by decide)
    exact ⟨_, hfails⟩
  · exact htop (by decide) ⟨.flow 0xffffffffffffffff, List.mem_cons_self, by decide⟩

/-- A flow that reads the flow with the highest number is neither inserted nor refused, although it
is refused at the end of the list: renumbering its source overflows first. -/
theorem insertFlow_overflows_at_top :
    let f : Flow := .fresh "side" [.flow 0xffffffffffffffff] []
    diamond.Reachable ∧ (∀ id, .flow id ∈ f.inputs → Size.Fits id) ∧
    ((Graph.insertFlow 0 f).run diamond).result = .error .overflow ∧
    ¬ ((∃ answer g', (Graph.insertFlow 0 f).Yields diamond answer g') ∨
      (Graph.insertFlow 0 f).Fails diamond (.flowNotFound 0) diamond ∨
      ∃ fault, (Graph.insertFlow 0 f).Fails diamond (.badSource fault) diamond) ∧
    (Graph.addFlow f).Fails diamond (.badSource (.flowOutOfRange 4 0xffffffffffffffff)) diamond := by
  intro f
  have htop : (Graph.insertFlow 0 f).Fails diamond .overflow diamond :=
    fails_insertFlow_overflow (by decide) (Nat.zero_le _) List.mem_cons_self (by decide)
  refine ⟨reachable_diamond, by simp [f, Flow.fresh, Size.Fits], htop.1, ?_, ?_⟩
  · rintro (⟨answer, g', hyields⟩ | hfails | ⟨fault, hfails⟩)
    · exact hyields.not_fails htop
    · rw [Fails, htop.1] at hfails
      cases hfails.1
    · rw [Fails, htop.1] at hfails
      cases hfails.1
  · exact ⟨by decide +kernel, rfl⟩

end LayerFlow.Graph
