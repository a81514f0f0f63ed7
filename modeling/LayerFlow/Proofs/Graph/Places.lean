/-
LayerFlow.Proofs.Graph.Places

The places where a source of the graph is read: the flows that read it, against the order of
evaluation, and within each flow the positions among its sources, ascending.  A flow that lists a
source several times reads it in several places.

Main statements: `mem_places`, `nodup_places`, and `positions_of_gradientsInto`, the gradients
that a flow hands to a source are those at the positions of the source.
-/
import LayerFlow.Graph.Build
import LayerFlow.Proofs.Graph.Structure
import LayerFlow.Proofs.References.Order

namespace LayerFlow

/-! ## Positions within a flow -/

/-- The positions of a source in a list of sources, ascending. -/
def positions (inputs : List Source) (source : Source) : List Nat :=
  inputs.zipIdx.filterMap fun entry => if entry.1 = source then some entry.2 else none

theorem mem_positions {inputs : List Source} {source : Source} {k : Nat} :
    k ∈ positions inputs source ↔ inputs[k]? = some source := by
  rw [positions, List.mem_filterMap]
  constructor
  · rintro ⟨⟨s, i⟩, hmem, heq⟩
    rw [List.mem_zipIdx_iff_getElem?] at hmem
    dsimp only at heq hmem
    split at heq
    · next hs =>
      cases heq
      rw [hmem, hs]
    · cases heq
  · intro h
    exact ⟨(source, k), List.mem_zipIdx_iff_getElem?.mpr h, if_pos rfl⟩

theorem ascending_positions (inputs : List Source) (source : Source) :
    (positions inputs source).Pairwise (· < ·) := by
  have hindices : (inputs.zipIdx.map Prod.snd).Pairwise (· < ·) := by
    rw [List.zipIdx_map_snd]
    exact List.pairwise_lt_range'
  refine List.Pairwise.filterMap _ ?_ (List.pairwise_map.mp hindices)
  intro first second hlt k hk l hl
  split at hk
  · split at hl
    · cases hk
      cases hl
      exact hlt
    · cases hl
  · cases hk

namespace Graph

/-- Followed from the front, position `k` of what is left is position `n + k` of the whole. -/
theorem positions_of_rest {gradients : List Handle} (source : Source) {rest : List Source}
    {more : List Handle} {n : Nat} (hlength : more.length = rest.length)
    (hget : ∀ k, more[k]? = gradients[n + k]?) :
    (gradientsInto source (rest.zip more)).map some =
      ((rest.zipIdx n).filterMap fun entry =>
        if entry.1 = source then some entry.2 else none).map fun k => gradients[k]? := by
  induction rest generalizing more n with
  | nil => rfl
  | cons s rest ih =>
    cases more with
    | nil => cases hlength
    | cons gradient more =>
      have hhead : gradients[n]? = some gradient := (hget 0).symm
      have htail : ∀ k, more[k]? = gradients[n + 1 + k]? := by
        intro k
        have hnext := hget (k + 1)
        rw [List.getElem?_cons_succ] at hnext
        rw [hnext, Nat.add_right_comm, Nat.add_assoc]
      have hrest := ih (Nat.succ.inj hlength) htail
      rw [gradientsInto] at hrest ⊢
      rw [List.zip_cons_cons, List.zipIdx_cons, List.filterMap_cons, List.filterMap_cons]
      dsimp only
      by_cases hs : s = source
      · rw [if_pos hs, if_pos hs]
        dsimp only
        rw [List.map_cons, List.map_cons, hrest, hhead]
      · rw [if_neg hs, if_neg hs]
        exact hrest

/-- The gradients that a flow hands to a source are those at the positions of the source. -/
theorem positions_of_gradientsInto {inputs : List Source} {gradients : List Handle}
    (hlength : gradients.length = inputs.length) (source : Source) :
    (gradientsInto source (inputs.zip gradients)).map some =
      (positions inputs source).map fun k => gradients[k]? := by
  have hwhole : ∀ k, gradients[k]? = gradients[0 + k]? := by
    intro k
    rw [Nat.zero_add]
  exact positions_of_rest source hlength hwhole

/-! ## Places in a graph -/

/-- The sources of a flow; none if there is no such flow. -/
def inputsOf (g : Graph) (id : Nat) : List Source := (g.flows[id]?.map Flow.inputs).getD []

theorem inputsOf_eq {g : Graph} {id : Nat} {f : Flow} (hf : g.flows[id]? = some f) :
    g.inputsOf id = f.inputs := by
  simp [inputsOf, hf]

/-- The places where a source is read: readers against the order of evaluation, and for each of
them the positions of the source, ascending. -/
def places (g : Graph) (source : Source) : List (Nat × Nat) :=
  g.references.order.reverse.flatMap fun reader =>
    (positions (g.inputsOf reader) source).map fun k => (reader, k)

/-- A source is read exactly where it stands among the sources of a flow. -/
theorem mem_places {g : Graph} (hsound : Sound g.rawInputs.length g.flows) {source : Source}
    {reader k : Nat} : (reader, k) ∈ g.places source ↔
      ∃ f, g.flows[reader]? = some f ∧ f.inputs[k]? = some source := by
  rw [places, List.mem_flatMap]
  constructor
  · rintro ⟨id, -, hmem⟩
    obtain ⟨position, hposition, heq⟩ := List.mem_map.mp hmem
    cases heq
    rw [mem_positions] at hposition
    cases hf : g.flows[reader]? with
    | none => simp [inputsOf, hf] at hposition
    | some f =>
      rw [inputsOf_eq hf] at hposition
      exact ⟨f, rfl, hposition⟩
  · rintro ⟨f, hf, hk⟩
    refine ⟨reader, ?_, List.mem_map.mpr ⟨k, ?_, rfl⟩⟩
    · rw [List.mem_reverse, References.mem_order hsound.acyclic_references
        hsound.inRange_references, length_references]
      exact (List.getElem?_eq_some_iff.mp hf).1
    · rw [inputsOf_eq hf]
      exact mem_positions.mpr hk

/-- No place is listed twice. -/
theorem nodup_places (g : Graph) (source : Source) : (g.places source).Nodup := by
  rw [places, List.nodup_flatMap]
  constructor
  · intro reader _
    refine List.Nodup.map (fun k l h => (Prod.mk.inj h).2) ?_
    exact (ascending_positions _ source).imp fun h => Nat.ne_of_lt h
  · refine (List.nodup_reverse.mpr (References.order_nodup g.references)).imp ?_
    intro first second hne place hfirst hsecond
    obtain ⟨k, -, rfl⟩ := List.mem_map.mp hfirst
    obtain ⟨l, -, heq⟩ := List.mem_map.mp hsecond
    exact hne (Prod.mk.inj heq).1.symm

/-- A source is read nowhere exactly if no flow lists it. -/
theorem places_eq_nil_iff {g : Graph} (hsound : Sound g.rawInputs.length g.flows)
    {source : Source} : g.places source = [] ↔ ∀ f ∈ g.flows, source ∉ f.inputs := by
  rw [List.eq_nil_iff_forall_not_mem]
  constructor
  · intro h f hf hmem
    obtain ⟨reader, hreader⟩ := List.mem_iff_getElem?.mp hf
    obtain ⟨k, hk⟩ := List.mem_iff_getElem?.mp hmem
    exact h (reader, k) ((mem_places hsound).mpr ⟨f, hreader, hk⟩)
  · rintro h ⟨reader, k⟩ hplace
    obtain ⟨f, hf, hk⟩ := (mem_places hsound).mp hplace
    exact h f (List.mem_of_getElem? hf) (List.mem_of_getElem? hk)

/-- The output of a flow is read nowhere exactly if the flow has no consumers. -/
theorem places_flow_eq_nil_iff {g : Graph} (hsound : Sound g.rawInputs.length g.flows)
    {id : Nat} : g.places (.flow id) = [] ↔ g.consumers id = [] := by
  rw [places_eq_nil_iff hsound, consumers, List.eq_nil_iff_forall_not_mem]
  constructor
  · intro h reader hreader
    obtain ⟨f, hf, hmem⟩ := reads_iff.mp (References.mem_readers.mp hreader)
    exact h f (List.mem_of_getElem? hf) hmem
  · intro h f hf hmem
    obtain ⟨reader, hreader⟩ := List.mem_iff_getElem?.mp hf
    exact h reader (References.mem_readers.mpr (reads_iff.mpr ⟨f, hreader, hmem⟩))

end Graph

end LayerFlow
