/-
LayerFlow.Proofs.Graph.Extension

Which sources can be added to a flow.  One more reference closes a cycle exactly if what it points
at leads back to where it starts, so the search through the whole document answers a question about
two flows.

Main statements: `cycle_addEdge_iff` and `addInputSource_exact`.
-/
import LayerFlow.Proofs.Graph.Checking
import LayerFlow.Proofs.Graph.Edits

namespace LayerFlow.Graph

open Op

/-! ## One more edge -/

section

variable {r r' : Nat → Nat → Prop} {start stop : Nat}

/-- A chain along a relation with one more edge is a chain of the relation, or passes the edge. -/
theorem transGen_addEdge (hr : ∀ x y, r' x y ↔ r x y ∨ x = start ∧ y = stop) {x y : Nat}
    (h : Relation.TransGen r' x y) : Relation.TransGen r x y ∨
      Relation.ReflTransGen r x start ∧ Relation.ReflTransGen r stop y := by
  induction h with
  | single hedge =>
    rcases (hr _ _).mp hedge with hold | ⟨rfl, rfl⟩
    · exact .inl (.single hold)
    · exact .inr ⟨.refl, .refl⟩
  | tail _ hedge ih =>
    rcases (hr _ _).mp hedge with hold | ⟨rfl, rfl⟩
    · rcases ih with hchain | ⟨hto, hback⟩
      · exact .inl (hchain.tail hold)
      · exact .inr ⟨hto, hback.tail hold⟩
    · rcases ih with hchain | ⟨hto, -⟩
      · exact .inr ⟨hchain.to_reflTransGen, .refl⟩
      · exact .inr ⟨hto, .refl⟩

/-- One more edge closes a cycle exactly if its end leads back to its start. -/
theorem cycle_addEdge_iff (hr : ∀ x y, r' x y ↔ r x y ∨ x = start ∧ y = stop)
    (hacyclic : ∀ x, ¬ Relation.TransGen r x x) :
    (∃ x, Relation.TransGen r' x x) ↔ Relation.ReflTransGen r stop start := by
  constructor
  · rintro ⟨x, hcycle⟩
    rcases transGen_addEdge hr hcycle with hold | ⟨hto, hback⟩
    · exact absurd hold (hacyclic x)
    · exact hback.trans hto
  · intro hback
    have hedge : r' start stop := (hr start stop).mpr (.inr ⟨rfl, rfl⟩)
    have hback' : Relation.ReflTransGen r' stop start :=
      Relation.ReflTransGen.mono (fun x y hold => (hr x y).mpr (.inl hold)) stop start hback
    exact ⟨start, .head' hedge hback'⟩

end

/-! ## Flows with one more source -/

/-- The flows once one of them has one more source. -/
def withSource (flows : List Flow) (id : Nat) (source : Source) : List Flow :=
  flows.modify id fun f => f.withInputs (f.inputs ++ [source])

/-- The graph once a flow has one more source. -/
def extended (g : Graph) (id : Nat) (source : Source) : Graph :=
  { g with flows := withSource g.flows id source }.resetAll

section

variable {rawCount id : Nat} {flows : List Flow} {f : Flow} {source : Source}

theorem length_withSource : (withSource flows id source).length = flows.length :=
  List.length_modify ..

theorem set_eq_withSource (hf : flows[id]? = some f) (source : Source) :
    flows.set id (f.withInputs (f.inputs ++ [source])) = withSource flows id source :=
  set_eq_modify hf fun f => f.withInputs (f.inputs ++ [source])

theorem getElem?_withSource (hf : flows[id]? = some f) (other : Nat) :
    (withSource flows id source)[other]? =
      if other = id then some (f.withInputs (f.inputs ++ [source])) else flows[other]? := by
  rw [withSource, List.getElem?_modify]
  by_cases hother : other = id
  · subst hother
    rw [hf, if_pos rfl, Option.map_eq_map, Option.map_some, if_pos rfl]
  · rw [if_neg hother]
    cases flows[other]? with
    | none => rfl
    | some f' => simp [Ne.symm hother]

theorem readsIn_withSource_iff (hf : flows[id]? = some f) (reader read : Nat) :
    ReadsIn (withSource flows id source) reader read ↔
      ReadsIn flows reader read ∨ reader = id ∧ source = .flow read := by
  rw [ReadsIn, getElem?_withSource hf]
  by_cases hreader : reader = id
  · subst hreader
    simp [ReadsIn, hf, eq_comm]
  · simp [ReadsIn, hreader]

theorem sourcesExist_withSource (h : SourcesExist rawCount flows) (hf : flows[id]? = some f)
    (hsource : source.Exists rawCount flows.length) :
    SourcesExist rawCount (withSource flows id source) := by
  intro f' hf' s hs
  rw [length_withSource]
  obtain ⟨other, hother⟩ := List.mem_iff_getElem?.mp hf'
  rw [getElem?_withSource hf] at hother
  split at hother
  · obtain rfl := Option.some.inj hother
    rcases List.mem_append.mp hs with hold | hnew
    · exact h f (List.mem_of_getElem? hf) s hold
    · rwa [List.mem_singleton.mp hnew]
  · exact h f' (List.mem_of_getElem? hother) s hs

/-- If all sources exist but the one that is added, it is the first one that does not. -/
theorem firstMissing_withSource (h : SourcesExist rawCount flows) (hf : flows[id]? = some f)
    (hsource : ¬ source.Exists rawCount flows.length) :
    FirstMissing rawCount (withSource flows id source) id f.inputs.length source := by
  refine ⟨⟨_, by rw [getElem?_withSource hf, if_pos rfl], List.getElem?_concat_length⟩, ?_, ?_, ?_⟩
  · rwa [length_withSource]
  · intro id' f' hlt hf' s hs
    rw [getElem?_withSource hf, if_neg (Nat.ne_of_lt hlt)] at hf'
    rw [length_withSource]
    exact h f' (List.mem_of_getElem? hf') s hs
  · intro f' position s hf' hlt hs
    rw [getElem?_withSource hf, if_pos rfl] at hf'
    obtain rfl := Option.some.inj hf'
    rw [Flow.inputs_withInputs, List.getElem?_append_left hlt] at hs
    rw [length_withSource]
    exact h f (List.mem_of_getElem? hf) s (List.mem_of_getElem? hs)

/-- A raw input more to read closes no cycle. -/
theorem cyclic_withSource_raw (hf : flows[id]? = some f) {slot : Nat}
    (h : Cyclic (withSource flows id (.raw slot))) : Cyclic flows := by
  obtain ⟨start, hcycle⟩ := h
  refine ⟨start, Relation.TransGen.mono (fun reader read hread => ?_) start start hcycle⟩
  rcases (readsIn_withSource_iff hf reader read).mp hread with hold | ⟨-, hnew⟩
  · exact hold
  · cases hnew

/-- A flow more to read closes a cycle exactly if it is the reader or reads it, directly or through
others. -/
theorem cyclic_withSource_flow_iff (h : ¬ Cyclic flows) (hf : flows[id]? = some f) (read : Nat) :
    Cyclic (withSource flows id (.flow read)) ↔
      id = read ∨ Relation.TransGen (ReadsIn flows) read id := by
  rw [← Relation.reflTransGen_iff_eq_or_transGen]
  refine cycle_addEdge_iff (fun x y => ?_) (not_exists.mp h)
  rw [readsIn_withSource_iff hf, Source.flow.injEq, eq_comm (a := read)]

end

/-! ## Adding a source -/

section

variable {g g' : Graph} {id : Nat} {f : Flow} {source : Source} {e : Failure}

theorem fails_addInputSource_behind (h : g.size ≤ id) :
    (Graph.addInputSource id source).Fails g (.flowNotFound id) g := by
  have hnone : g.flows[id]? = none := List.getElem?_eq_none h
  refine fails_get_bind.mpr (fails_bind.mpr (.inl (fails_ofExcept.mpr ⟨?_, rfl⟩)))
  rw [Graph.flow, hnone]

/-- A source is added if the document stays sound. -/
theorem yields_addInputSource_of_sound (hf : g.flows[id]? = some f)
    (hsound : Sound g.rawInputs.length (withSource g.flows id source)) :
    (Graph.addInputSource id source).Yields g () (g.extended id source) := by
  refine yields_get_bind.mpr (yields_bind.mpr ⟨f, g, ?_, ?_⟩)
  · exact yields_ofExcept.mpr ⟨flow_eq_ok_iff.mpr hf, rfl⟩
  · refine yields_mapError.mpr (yields_editFlows.mpr ⟨_, rfl, ?_, ?_⟩)
    · rwa [set_eq_withSource hf]
    · rw [extended, set_eq_withSource hf]

/-- Otherwise it is refused as the check says, with the new reference in the name of a cycle. -/
theorem fails_addInputSource_of_check (hf : g.flows[id]? = some f)
    (hcheck : checkStructure g.rawInputs.length (withSource g.flows id source) = .error e) :
    (Graph.addInputSource id source).Fails g (nameEdge id source e) g := by
  refine fails_get_bind.mpr (fails_bind.mpr (.inr ⟨f, g, ?_, ?_⟩))
  · exact yields_ofExcept.mpr ⟨flow_eq_ok_iff.mpr hf, rfl⟩
  · refine fails_mapError.mpr ⟨e, fails_editFlows.mpr ⟨rfl, .inr ⟨_, rfl, ?_⟩⟩, rfl⟩
    rwa [set_eq_withSource hf]

theorem Sound.fails_addInputSource_missing (h : Sound g.rawInputs.length g.flows)
    (hf : g.flows[id]? = some f) (hsource : ¬ source.Exists g.rawInputs.length g.size) :
    (Graph.addInputSource id source).Fails g
      (.badSource (source.fault g.rawInputs.length id)) g :=
  fails_addInputSource_of_check hf (firstMissing_withSource h.sources hf hsource).checkStructure_eq

theorem Sound.yields_addInputSource_raw (h : Sound g.rawInputs.length g.flows)
    (hf : g.flows[id]? = some f) {slot : Nat} (hslot : slot < g.rawInputs.length) :
    (Graph.addInputSource id (.raw slot)).Yields g () (g.extended id (.raw slot)) := by
  obtain ⟨hexist, hacyclic⟩ := sound_iff.mp h
  refine yields_addInputSource_of_sound hf (sound_iff.mpr ⟨?_, ?_⟩)
  · exact sourcesExist_withSource hexist hf hslot
  · exact mt (cyclic_withSource_raw hf) hacyclic

theorem Sound.yields_addInputSource_flow (h : Sound g.rawInputs.length g.flows)
    (hf : g.flows[id]? = some f) {read : Nat} (hread : read < g.size)
    (hback : ¬ (id = read ∨ Relation.TransGen g.ReadsFlow read id)) :
    (Graph.addInputSource id (.flow read)).Yields g () (g.extended id (.flow read)) := by
  obtain ⟨hexist, hacyclic⟩ := sound_iff.mp h
  refine yields_addInputSource_of_sound hf (sound_iff.mpr ⟨?_, ?_⟩)
  · exact sourcesExist_withSource hexist hf hread
  · exact mt (cyclic_withSource_flow_iff hacyclic hf read).mp hback

/-- A reference that closes a cycle is refused under its own name, whichever cycle the search
found. -/
theorem Sound.fails_addInputSource_cycle (h : Sound g.rawInputs.length g.flows)
    (hf : g.flows[id]? = some f) {read : Nat} (hread : read < g.size)
    (hback : id = read ∨ Relation.TransGen g.ReadsFlow read id) :
    (Graph.addInputSource id (.flow read)).Fails g (.cycle id read) g := by
  obtain ⟨hexist, hacyclic⟩ := sound_iff.mp h
  have hnew : SourcesExist g.rawInputs.length (withSource g.flows id (.flow read)) :=
    sourcesExist_withSource hexist hf hread
  obtain ⟨reader, source, hcheck, -, -⟩ :=
    exists_closing_of_cyclic hnew ((cyclic_withSource_flow_iff hacyclic hf read).mpr hback)
  exact fails_addInputSource_of_check hf hcheck

end

/-! ## Every source -/

/-- What adding a source to a flow answers.  A flow that does not exist is refused; a raw input is
added exactly if it exists; so is a flow, unless it is the reader itself or reads it, directly or
through others: then, and only then, the new reference is refused as one that closes a cycle.  A
source that is refused changes nothing, and one that is added comes after the other sources of the
flow. -/
theorem addInputSource_exact {g : Graph} (h : g.Reachable) (id : Nat) :
    (g.size ≤ id → ∀ source, (Graph.addInputSource id source).Fails g (.flowNotFound id) g) ∧
    (id < g.size →
      (∀ slot, ((∃ g', (Graph.addInputSource id (.raw slot)).Yields g () g') ↔
          slot < g.rawInputs.length) ∧
        (g.rawInputs.length ≤ slot → (Graph.addInputSource id (.raw slot)).Fails g
          (.badSource (.rawOutOfRange id slot g.rawInputs.length)) g)) ∧
      (∀ read, g.size ≤ read → (Graph.addInputSource id (.flow read)).Fails g
        (.badSource (.flowOutOfRange id read)) g) ∧
      ∀ read, read < g.size →
        ((Graph.addInputSource id (.flow read)).Fails g (.cycle id read) g ↔
          id = read ∨ Relation.TransGen g.ReadsFlow read id) ∧
        ((∃ g', (Graph.addInputSource id (.flow read)).Yields g () g') ↔
          ¬ (id = read ∨ Relation.TransGen g.ReadsFlow read id))) ∧
    ∀ source g', (Graph.addInputSource id source).Yields g () g' → g' = g.extended id source := by
  have hsound := h.wellFormed.sound
  refine ⟨fun hid _ => fails_addInputSource_behind hid, fun hid => ?_, fun source g' hadd => ?_⟩
  · obtain ⟨f, hf⟩ : ∃ f, g.flows[id]? = some f := ⟨_, List.getElem?_eq_getElem hid⟩
    have hmissing : ∀ {source : Source}, ¬ source.Exists g.rawInputs.length g.size →
        (Graph.addInputSource id source).Fails g
          (.badSource (source.fault g.rawInputs.length id)) g :=
      fun hsource => hsound.fails_addInputSource_missing hf hsource
    refine ⟨fun slot => ⟨⟨?_, fun hslot => ⟨_, hsound.yields_addInputSource_raw hf hslot⟩⟩,
        fun hslot => hmissing (Nat.not_lt_of_le hslot)⟩,
      fun read hread => hmissing (Nat.not_lt_of_le hread), fun read hread => ⟨⟨?_, ?_⟩, ⟨?_, ?_⟩⟩⟩
    · rintro ⟨g', hadd⟩
      by_contra hslot
      exact hadd.not_fails (hmissing hslot)
    · intro hfails
      by_contra hback
      exact (hsound.yields_addInputSource_flow hf hread hback).not_fails hfails
    · exact hsound.fails_addInputSource_cycle hf hread
    · rintro ⟨g', hadd⟩ hback
      exact hadd.not_fails (hsound.fails_addInputSource_cycle hf hread hback)
    · exact fun hback => ⟨_, hsound.yields_addInputSource_flow hf hread hback⟩
  · exact (yields_addInputSource hadd).2.2

/-- The right branch can read the left one as well, so the left one does not lead to it; the trunk
cannot read the flow that joins both. -/
theorem addInputSource_exact_diamond :
    ((∃ g', (Graph.addInputSource 2 (.flow 1)).Yields diamond () g') ∧
      ¬ Relation.TransGen diamond.ReadsFlow 1 2) ∧
    (Graph.addInputSource 0 (.flow 3)).Fails diamond (.cycle 0 3) diamond ∧
    (Graph.addInputSource 0 (.flow 4)).Fails diamond (.badSource (.flowOutOfRange 0 4)) diamond ∧
    (Graph.addInputSource 4 (.raw 0)).Fails diamond (.flowNotFound 4) diamond := by
  obtain ⟨-, htrunk, -⟩ := addInputSource_exact reachable_diamond 0
  obtain ⟨-, hmissing, hcycle⟩ := htrunk (by decide)
  obtain ⟨-, hright, -⟩ := addInputSource_exact reachable_diamond 2
  obtain ⟨-, -, hbranch⟩ := hright (by decide)
  obtain ⟨hbehind, -⟩ := addInputSource_exact reachable_diamond 4
  have hadd : ∃ g', (Graph.addInputSource 2 (.flow 1)).Yields diamond () g' :=
    ⟨_, yields_addInputSource_of_sound rfl (sound_of_earlier (by decide))⟩
  have hjoin : diamond.ReadsFlow 3 1 := ⟨_, rfl, by decide⟩
  have htop : diamond.ReadsFlow 1 0 := ⟨_, rfl, by decide⟩
  refine ⟨⟨hadd, fun hback => ?_⟩, ?_, hmissing 4 (by decide), hbehind (by decide) _⟩
  · exact (hbranch 1 (by decide)).2.mp hadd (.inr hback)
  · exact (hcycle 3 (by decide)).1.mpr (.inr (.head hjoin (.single htop)))

end LayerFlow.Graph
