/-
LayerFlow.Proofs.Graph.Visits

Walks over the flows of a graph that replace one flow after the other.  If a walk visits no flow
twice, every visit finds its flow as it was before the walk, and what the visit makes of it is
still there after the walk.

Main statement: `Visits.found`.
-/
import LayerFlow.Proofs.Graph.Reachable

namespace LayerFlow.Graph

open Op

/-- One flow of a graph replaced: the flow before and after. -/
structure Visit where
  id : Nat
  flow : Flow
  after : Flow

/-- Flows of a graph replaced one after the other, none of them by one with other sources. -/
inductive Visits : Graph → List Visit → Graph → Prop
  | nil (g : Graph) : Visits g [] g
  | cons {g g' : Graph} {v : Visit} {rest : List Visit} (hflow : g.flows[v.id]? = some v.flow)
      (hinputs : v.after.inputs = v.flow.inputs)
      (hrest : Visits (g.setFlow v.id v.after) rest g') : Visits g (v :: rest) g'

namespace Visits

variable {g g' : Graph} {visits : List Visit}

theorem rawInputs_eq (h : Visits g visits g') : g'.rawInputs = g.rawInputs := by
  induction h with
  | nil g => rfl
  | cons hflow hinputs hrest ih => exact ih

theorem inputs_eq (h : Visits g visits g') :
    g'.flows.map Flow.inputs = g.flows.map Flow.inputs := by
  induction h with
  | nil g => rfl
  | @cons g g' v rest hflow hinputs hrest ih =>
    have hkept : (g.flows.map Flow.inputs)[v.id]? = some v.after.inputs := by
      rw [List.getElem?_map, hflow, hinputs]
      rfl
    rw [ih, inputs_setFlow hkept]

theorem getElem?_of_not_mem (h : Visits g visits g') {id : Nat}
    (hid : id ∉ visits.map Visit.id) : g'.flows[id]? = g.flows[id]? := by
  induction h with
  | nil g => rfl
  | cons hflow hinputs hrest ih =>
    rw [List.map_cons, List.mem_cons, not_or] at hid
    obtain ⟨hne, hrest⟩ := hid
    rw [ih hrest]
    exact List.getElem?_set_ne (Ne.symm hne)

/-- Every visit finds the flow of before the walk and leaves the flow of after it. -/
theorem found (h : Visits g visits g') (hnodup : (visits.map Visit.id).Nodup) {v : Visit}
    (hv : v ∈ visits) : g.flows[v.id]? = some v.flow ∧ g'.flows[v.id]? = some v.after := by
  induction h with
  | nil g => cases hv
  | @cons g g' first rest hflow hinputs hrest ih =>
    obtain ⟨hnew, hnodup⟩ := List.nodup_cons.mp hnodup
    rcases List.mem_cons.mp hv with rfl | hv
    · refine ⟨hflow, ?_⟩
      rw [hrest.getElem?_of_not_mem hnew]
      exact List.getElem?_set_self (List.getElem?_eq_some_iff.mp hflow).1
    · -- The first visit was to another flow, so it changed nothing for this one.
      obtain ⟨hbefore, hafter⟩ := ih hnodup hv
      have hne : first.id ≠ v.id := by
        intro heq
        apply hnew
        rw [heq]
        exact List.mem_map_of_mem hv
      refine ⟨?_, hafter⟩
      rw [← hbefore]
      exact (List.getElem?_set_ne hne).symm

end Visits

/-! ## Work on one flow -/

theorem yields_onFlow {α β : Type} {id : Nat} {x : Op Failure (Flow × β) α} {g g' : Graph}
    {b b' : β} {a : α} (h : (onFlow id x).Yields (g, b) a (g', b')) :
    ∃ f f', g.flows[id]? = some f ∧ x.Yields (f, b) a (f', b') ∧ g' = g.setFlow id f' := by
  rw [onFlow] at h
  replace h := yields_get_bind.mp h
  obtain ⟨f, _, hflow, h⟩ := yields_bind.mp h
  obtain ⟨hf, rfl⟩ := yields_ofExcept.mp hflow
  obtain ⟨⟨f', b₁⟩, hx, heq⟩ := yields_zoom.mp h
  cases heq
  exact ⟨f, f', flow_eq_ok_iff.mp hf, hx, rfl⟩

end LayerFlow.Graph
