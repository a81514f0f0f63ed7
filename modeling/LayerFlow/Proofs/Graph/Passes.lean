/-
LayerFlow.Proofs.Graph.Passes

One pass of an inference, whatever the flows had stored before.  A pass goes through groups of
flows, one group after the other, and no flow of a group sees what is inferred for another one of
the group; a pass in order is the case of groups with a single flow.  Every flow stands in a later
group than the flows it reads, so its sources hold their evaluated shapes when it is inferred, and
nothing that was stored earlier is read.

Main statement: `run_passOf`, the answer of a pass and the graph that it leaves, told from the
document and from the shapes that the flows had before.
-/
import LayerFlow.Proofs.Graph.Evaluation
import LayerFlow.Proofs.Graph.Reachable

namespace LayerFlow.Graph

open Op

theorem getElem?_of_lt_size {g : Graph} {id : Nat} (h : id < g.size) :
    ∃ f, g.flows[id]? = some f :=
  ⟨_, List.getElem?_eq_getElem h⟩

theorem mem_order_iff {g : Graph} (hsound : Sound g.rawInputs.length g.flows) {id : Nat} :
    id ∈ g.references.order ↔ id < g.size := by
  rw [References.mem_order hsound.acyclic_references hsound.inRange_references,
    length_references]

/-! ## Failures -/

/-- The failures among some results. -/
def failures {α : Type} (results : List (Except Failure α)) : List Failure :=
  results.filterMap fun
    | .error e => some e
    | .ok _ => none

theorem firstFailure_def {α : Type} (results : List (Except Failure α)) :
    firstFailure results =
      if .overflow ∈ failures results then some .overflow else (failures results).head? := rfl

theorem failures_eq_nil_iff {α : Type} {results : List (Except Failure α)} :
    failures results = [] ↔ ∀ result ∈ results, ∃ a, result = .ok a := by
  rw [failures, List.filterMap_eq_nil_iff]
  refine forall₂_congr fun result _ => ?_
  cases result <;> simp

/-- A level fails unless all its flows succeed. -/
theorem firstFailure_eq_none_iff {α : Type} {results : List (Except Failure α)} :
    firstFailure results = none ↔ ∀ result ∈ results, ∃ a, result = .ok a := by
  rw [← failures_eq_nil_iff, firstFailure_def]
  split
  · next hmem =>
    have hne : failures results ≠ [] := List.ne_nil_of_mem hmem
    simp [hne]
  · rw [List.head?_eq_none_iff]

/-- The failure at which evaluating groups of flows stops.  The groups come one after the other,
and the flows of a group are evaluated independently of each other. -/
def groupFailure? (g : Graph) (groups : List (List Nat)) : Option Failure :=
  groups.findSome? fun ids => firstFailure (ids.map g.eval)

theorem groupFailure?_cons (g : Graph) (ids : List Nat) (later : List (List Nat)) :
    g.groupFailure? (ids :: later) =
      match firstFailure (ids.map g.eval) with
      | some e => some e
      | none => g.groupFailure? later := by
  rw [groupFailure?, List.findSome?_cons]
  cases firstFailure (ids.map g.eval) <;> rfl

/-- A group whose flows all have shapes does not fail. -/
theorem firstFailure_eval_eq_none_iff {g : Graph} {ids : List Nat} :
    firstFailure (ids.map g.eval) = none ↔ ∀ id ∈ ids, ∃ shapes, g.eval id = .ok shapes := by
  rw [firstFailure_eq_none_iff, List.forall_mem_map]

theorem firstFailure_singleton {α : Type} (e : Failure) :
    firstFailure [(.error e : Except Failure α)] = some e := by
  rw [firstFailure_def, failures, List.filterMap_cons, List.filterMap_nil]
  by_cases h : e = .overflow <;> simp [h]

theorem failures_map_map {α β : Type} (results : Nat → Except Failure α) (f : Nat → α → β)
    (ids : List Nat) : failures (ids.map fun id => (results id).map (f id)) =
      failures (ids.map results) := by
  rw [failures, failures, List.filterMap_map, List.filterMap_map]
  apply List.filterMap_congr
  intro id _
  show _ = _
  dsimp only [Function.comp_apply]
  cases results id <;> rfl

/-- What is made of the answers does not matter to how a level fails. -/
theorem firstFailure_map_map {α β : Type} (results : Nat → Except Failure α) (f : Nat → α → β)
    (ids : List Nat) : firstFailure (ids.map fun id => (results id).map (f id)) =
      firstFailure (ids.map results) := by
  rw [firstFailure_def, firstFailure_def, failures_map_map]

/-! ## Flows after a pass -/

/-- A flow once it is inferred from sources with their evaluated shapes. -/
def concluded (g : Graph) (id : Nat) (f : Flow) : Flow :=
  match g.eval id with
  | .ok shapes => f.withShapes shapes
  | .error _ => f.clear

theorem concluded_of_ok {g : Graph} {id : Nat} {shapes : FlowShapes} (h : g.eval id = .ok shapes)
    (f : Flow) : g.concluded id f = f.withShapes shapes := by
  rw [concluded, h]

theorem concluded_of_error {g : Graph} {id : Nat} {e : Failure} (h : g.eval id = .error e)
    (f : Flow) : g.concluded id f = f.clear := by
  rw [concluded, h]

@[simp] theorem clear_concluded (g : Graph) (id : Nat) (f : Flow) :
    (g.concluded id f).clear = f.clear := by
  rw [concluded]
  cases g.eval id <;> rfl

/-- Whether the evaluated shapes of a flow change what readers of the flow, or its layers, see. -/
def moves (g : Graph) (id : Nat) : Bool :=
  match g.flows[id]?, g.eval id with
  | some f, .ok shapes => Flow.differs f.shapes shapes
  | _, _ => false

theorem moves_eq {g : Graph} {id : Nat} {f : Flow} {shapes : FlowShapes}
    (hf : g.flows[id]? = some f) (heval : g.eval id = .ok shapes) :
    g.moves id = Flow.differs f.shapes shapes := by
  rw [moves, hf, heval]

/-- The flows after a pass: those that it did not reach have no shapes, all others are inferred. -/
def flowsAfter (g : Graph) (unreached : List Nat) : List Flow :=
  g.flows.mapIdx fun id f => if id ∈ unreached then f.clear else g.concluded id f

theorem getElem?_flowsAfter (g : Graph) (unreached : List Nat) (id : Nat) :
    (g.flowsAfter unreached)[id]? =
      g.flows[id]?.map fun f => if id ∈ unreached then f.clear else g.concluded id f :=
  List.getElem?_mapIdx

/-- The flows that a pass over groups does not reach: those behind the first group that fails. -/
def unreached (g : Graph) : List (List Nat) → List Nat
  | [] => []
  | ids :: later =>
    match firstFailure (ids.map g.eval) with
    | some _ => later.flatten
    | none => g.unreached later

/-- Up to the first group that fails nothing is left out. -/
theorem groupFailure?_append {g : Graph} {before : List (List Nat)}
    (h : ∀ id ∈ before.flatten, ∃ shapes, g.eval id = .ok shapes) (rest : List (List Nat)) :
    g.groupFailure? (before ++ rest) = g.groupFailure? rest ∧
      g.unreached (before ++ rest) = g.unreached rest := by
  induction before with
  | nil => exact ⟨rfl, rfl⟩
  | cons ids before ih =>
    rw [List.flatten_cons, List.forall_mem_append] at h
    have hnone : firstFailure (ids.map g.eval) = none := firstFailure_eval_eq_none_iff.mpr h.1
    rw [List.cons_append, groupFailure?_cons, unreached, hnone]
    exact ih h.2

/-- Groups of flows that all have shapes are gone through. -/
theorem groupFailure?_eq_none {g : Graph} {groups : List (List Nat)}
    (h : ∀ id ∈ groups.flatten, ∃ shapes, g.eval id = .ok shapes) :
    g.groupFailure? groups = none ∧ g.unreached groups = [] := by
  have happend := groupFailure?_append h []
  rw [List.append_nil] at happend
  exact happend

theorem eval_ok_of_groupFailure? {g : Graph} {groups : List (List Nat)}
    (h : g.groupFailure? groups = none) :
    ∀ id ∈ groups.flatten, ∃ shapes, g.eval id = .ok shapes := by
  intro id hid
  obtain ⟨ids, hids, hmem⟩ := List.mem_flatten.mp hid
  exact firstFailure_eval_eq_none_iff.mp (List.findSome?_eq_none_iff.mp h ids hids) id hmem

/-- Groups are gone through up to the first one that fails, and what stands behind it is not
reached. -/
theorem groupFailure?_eq_some {g : Graph} {groups : List (List Nat)} {e : Failure}
    (h : g.groupFailure? groups = some e) :
    ∃ done ids later, groups = done ++ ids :: later ∧
      (∀ id ∈ done.flatten, ∃ shapes, g.eval id = .ok shapes) ∧
      firstFailure (ids.map g.eval) = some e ∧ g.unreached groups = later.flatten := by
  obtain ⟨done, ids, later, rfl, hfirst, hdone⟩ := List.findSome?_eq_some_iff.mp h
  have hok := eval_ok_of_groupFailure? (List.findSome?_eq_none_iff.mpr hdone)
  refine ⟨done, ids, later, rfl, hok, hfirst, ?_⟩
  rw [(groupFailure?_append hok _).2, unreached, hfirst]

/-- Two graphs have the same flows over the same raw inputs; settings and analysis may differ. -/
structure SameFlows (g g' : Graph) : Prop where
  rawInputs : g'.rawInputs = g.rawInputs
  flows : g'.flows = g.flows

namespace SameFlows

variable {g g' : Graph}

theorem references (h : SameFlows g g') : g'.references = g.references :=
  congrArg referencesOf h.flows

theorem eval (h : SameFlows g g') : g'.eval = g.eval :=
  funext (SameDocument.eval ⟨h.rawInputs, congrArg (List.map Flow.clear) h.flows⟩)

theorem moves (h : SameFlows g g') : g'.moves = g.moves := by
  funext id
  rw [Graph.moves, Graph.moves, h.flows, h.eval]

theorem groupFailure? (h : SameFlows g g') : g'.groupFailure? = g.groupFailure? := by
  funext groups
  rw [Graph.groupFailure?, Graph.groupFailure?, h.eval]

theorem unreached (h : SameFlows g g') (groups : List (List Nat)) :
    g'.unreached groups = g.unreached groups := by
  induction groups with
  | nil => rfl
  | cons ids later ih => rw [Graph.unreached, Graph.unreached, h.eval, ih]

theorem flowsAfter (h : SameFlows g g') (ids : List Nat) :
    g'.flowsAfter ids = g.flowsAfter ids := by
  unfold Graph.flowsAfter Graph.concluded
  rw [h.flows, h.eval]

end SameFlows

/-! ## Part-way through a pass -/

/-- A graph in the middle of a pass: the flows of `done` are inferred, all others are as they
were. -/
structure Partway (g : Graph) (done : List Nat) (g' : Graph) : Prop where
  rawInputs : g'.rawInputs = g.rawInputs
  flows : ∀ id, g'.flows[id]? =
    if id ∈ done then g.flows[id]?.map (g.concluded id) else g.flows[id]?

namespace Partway

variable {g g' : Graph} {done : List Nat}

theorem sameDocument (h : Partway g done g') : SameDocument g g' := by
  refine ⟨h.rawInputs, List.ext_getElem? fun id => ?_⟩
  rw [List.getElem?_map, List.getElem?_map, h.flows]
  split
  · rw [Option.map_map]
    congr 1
    exact funext fun f => clear_concluded g id f
  · rfl

theorem holds (h : Partway g done g') {id : Nat} (hid : id ∈ done) (hlt : id < g.size)
    {shapes : FlowShapes} (heval : g.eval id = .ok shapes) : Holds g g' id := by
  obtain ⟨f, hf⟩ := getElem?_of_lt_size hlt
  refine ⟨f.withShapes shapes, ?_, f, shapes, hf, heval, rfl⟩
  rw [h.flows, if_pos hid, hf, Option.map_some, concluded_of_ok heval]

theorem setFlow (h : Partway g done g') {id : Nat} {f : Flow} (hf : g.flows[id]? = some f) :
    Partway g (done ++ [id]) (g'.setFlow id (g.concluded id f)) := by
  refine ⟨h.rawInputs, fun other => ?_⟩
  show (g'.flows.set id (g.concluded id f))[other]? = _
  have hlt : id < g'.flows.length := by
    rw [h.sameDocument.length]
    exact (List.getElem?_eq_some_iff.mp hf).1
  by_cases hother : id = other
  · subst hother
    rw [List.getElem?_set_self hlt, if_pos (by simp), hf, Option.map_some]
  · rw [List.getElem?_set_ne hother, h.flows]
    have hmem : other ∈ done ++ [id] ↔ other ∈ done := by simp [Ne.symm hother]
    simp only [hmem]

/-- An inference of a flow that is not inferred yet, after all the flows it reads. -/
theorem run_infer (hsound : Sound g.rawInputs.length g.flows) (h : Partway g done g')
    (hok : ∀ id ∈ done, ∃ shapes, g.eval id = .ok shapes) {id : Nat} (hid : id ∉ done)
    (hreads : ∀ source, g.references.Reads id source → source ∈ done) {f : Flow}
    (hf : g.flows[id]? = some f) : g'.flows[id]? = some f ∧
      ((Flow.infer g'.resolve).run f).result = (g.eval id).map (fun _ => g.moves id) ∧
      ((Flow.infer g'.resolve).run f).state = g.concluded id f := by
  have hf' : g'.flows[id]? = some f := by rw [h.flows, if_neg hid, hf]
  have hsources : ∀ source, g.references.Reads id source → Holds g g' source := by
    intro source hread
    obtain ⟨shapes, heval⟩ := hok source (hreads source hread)
    have hlt := hsound.inRange_references id source hread
    rw [length_references] at hlt
    exact h.holds (hreads source hread) hlt heval
  obtain ⟨hyields, hfails⟩ := infer_result hsound h.sameDocument hf hf' hsources
  refine ⟨hf', ?_⟩
  cases heval : g.eval id with
  | ok shapes =>
    rw [concluded_of_ok heval, moves_eq hf heval]
    exact hyields shapes heval
  | error e =>
    rw [concluded_of_error heval]
    exact hfails e heval

end Partway

/-! ## One group -/

/-- The graph after some flows are stored. -/
def storeOutcomes (g : Graph) (entries : List (Nat × Outcome Failure Flow Bool)) : Graph :=
  entries.foldl (fun g entry => g.setFlow entry.1 entry.2.state) g

theorem storeOutcomes_cons (g : Graph) (entry : Nat × Outcome Failure Flow Bool)
    (rest : List (Nat × Outcome Failure Flow Bool)) : g.storeOutcomes (entry :: rest) =
      (g.setFlow entry.1 entry.2.state).storeOutcomes rest := rfl

theorem run_inferLevel (g : Graph) (ids : List Nat) : (inferLevel ids).run g =
    match firstFailure ((g.outcomes ids).map fun entry => entry.2.result) with
    | some e => ⟨.error e, g.storeOutcomes (g.outcomes ids),
        (g.outcomes ids).flatMap fun entry => entry.2.log⟩
    | none => ⟨.ok ((g.outcomes ids).any fun entry => entry.2.result matches .ok true),
        g.storeOutcomes (g.outcomes ids),
        (g.outcomes ids).flatMap fun entry => entry.2.log⟩ := rfl

theorem outcomes_cons {g : Graph} {id : Nat} {f : Flow} (hf : g.flows[id]? = some f)
    (rest : List Nat) : g.outcomes (id :: rest) =
      (id, (Flow.infer g.resolve).run f) :: g.outcomes rest := by
  rw [outcomes, List.filterMap_cons, hf]
  rfl

namespace Partway

variable {g g' : Graph} {done : List Nat}

/-- The flows of a group that reads flows inferred before are inferred as the document says. -/
theorem outcomes (hsound : Sound g.rawInputs.length g.flows) (h : Partway g done g')
    (hok : ∀ id ∈ done, ∃ shapes, g.eval id = .ok shapes) {ids : List Nat}
    (hids : ∀ id ∈ ids, id < g.size ∧ id ∉ done ∧
      ∀ source, g.references.Reads id source → source ∈ done) :
    (g'.outcomes ids).map (fun entry => entry.2.result) =
        (ids.map fun id => (g.eval id).map fun _ => g.moves id) ∧
      ∀ u before, Partway g before u →
        Partway g (before ++ ids) (u.storeOutcomes (g'.outcomes ids)) := by
  induction ids with
  | nil =>
    refine ⟨rfl, fun u before hu => ?_⟩
    rw [List.append_nil]
    exact hu
  | cons id rest ih =>
    rw [List.forall_mem_cons] at hids
    obtain ⟨⟨hlt, hnew, hreads⟩, hrest⟩ := hids
    obtain ⟨f, hf⟩ := getElem?_of_lt_size hlt
    obtain ⟨hf', hresult, hstate⟩ := h.run_infer hsound hok hnew hreads hf
    obtain ⟨hresults, hstore⟩ := ih hrest
    rw [outcomes_cons hf']
    refine ⟨?_, fun u before hu => ?_⟩
    · rw [List.map_cons, List.map_cons, hresults, hresult]
    · rw [storeOutcomes_cons, List.append_cons]
      dsimp only
      rw [hstate]
      exact hstore _ _ (hu.setFlow hf)

/-- A group that reads flows inferred before fails as the evaluation does, and reports whether one
of its flows moves.  Either way all its flows are inferred. -/
theorem run_inferLevel (hsound : Sound g.rawInputs.length g.flows) (h : Partway g done g')
    (hok : ∀ id ∈ done, ∃ shapes, g.eval id = .ok shapes) {ids : List Nat}
    (hids : ∀ id ∈ ids, id < g.size ∧ id ∉ done ∧
      ∀ source, g.references.Reads id source → source ∈ done) :
    ((inferLevel ids).run g').result =
        (match firstFailure (ids.map g.eval) with
          | some e => .error e
          | none => .ok (ids.any g.moves)) ∧
      Partway g (done ++ ids) ((inferLevel ids).run g').state := by
  obtain ⟨hresults, hstore⟩ := h.outcomes hsound hok hids
  have hfailure := firstFailure_map_map g.eval (fun id _ => g.moves id) ids
  rw [← hresults] at hfailure
  have hrun := Graph.run_inferLevel g' ids
  rw [hfailure] at hrun
  cases hfirst : firstFailure (ids.map g.eval) with
  | some e =>
    rw [hfirst] at hrun
    rw [hrun]
    exact ⟨rfl, hstore g' done h⟩
  | none =>
    rw [hfirst] at hrun
    rw [hrun]
    refine ⟨congrArg Except.ok ?_, hstore g' done h⟩
    have hany : ((g'.outcomes ids).any fun entry => entry.2.result matches .ok true) =
        ((g'.outcomes ids).map fun entry => entry.2.result).any fun r => r matches .ok true := by
      rw [List.any_map]
      rfl
    -- No flow of the group fails, so each of them answers whether it moves.
    have hall : (ids.map fun id => (g.eval id).map fun _ => g.moves id) =
        ids.map fun id => .ok (g.moves id) := by
      apply List.map_congr_left
      intro id hid
      obtain ⟨shapes, heval⟩ := firstFailure_eval_eq_none_iff.mp hfirst id hid
      rw [heval]
      rfl
    rw [hany, hresults, hall, List.any_map]
    refine List.any_congr rfl fun id => ?_
    rw [Function.comp_apply]
    cases g.moves id <;> rfl

end Partway

/-! ## Groups one after the other -/

theorem getElem?_clearFlows (g : Graph) (ids : List Nat) (id : Nat) :
    (g.clearFlows ids).flows[id]? =
      if id ∈ ids then g.flows[id]?.map Flow.clear else g.flows[id]? := by
  have hfold : ∀ (ids : List Nat) (flows : List Flow),
      (ids.foldl (fun flows id => flows.modify id Flow.clear) flows)[id]? =
        if id ∈ ids then flows[id]?.map Flow.clear else flows[id]? := by
    intro ids
    induction ids with
    | nil => exact fun _ => rfl
    | cons first rest ih =>
      intro flows
      rw [List.foldl_cons, ih, List.getElem?_modify]
      -- A flow that is cleared twice is cleared.
      by_cases hfirst : first = id
      · subst hfirst
        simp only [List.mem_cons, true_or, if_true]
        split <;> cases flows[first]? <;> rfl
      · simp only [List.mem_cons, Ne.symm hfirst, false_or, hfirst, if_false]
        cases flows[id]? <;> rfl
  exact hfold ids g.flows

/-- A pass ends by clearing what it did not reach. -/
theorem Partway.clearFlows {g g' : Graph} {done rest : List Nat} (h : Partway g done g')
    (hcover : ∀ id < g.size, id ∈ done ∨ id ∈ rest) :
    (g'.clearFlows rest).flows = g.flowsAfter rest := by
  refine List.ext_getElem? fun id => ?_
  rw [getElem?_clearFlows, getElem?_flowsAfter]
  by_cases hrest : id ∈ rest
  · simp only [hrest, if_true]
    exact h.sameDocument.getElem?_clear id
  · simp only [hrest, if_false]
    rw [h.flows]
    split
    · rfl
    · next hdone =>
      -- A flow that was neither reached nor left out does not exist.
      have hlt : g.flows.length ≤ id := by
        by_contra hlt
        exact (hcover id (Nat.lt_of_not_le hlt)).elim hdone hrest
      rw [List.getElem?_eq_none hlt, Option.map_none]

/-- Groups that make up the order of evaluation, each with flows that read flows of earlier groups
only. -/
structure Staged (g : Graph) (groups : List (List Nat)) : Prop where
  flatten : groups.flatten = g.references.order
  reads : ∀ done ids later, groups = done ++ ids :: later → ∀ id ∈ ids, ∀ source,
    g.references.Reads id source → source ∈ done.flatten

namespace Staged

variable {g : Graph} {groups : List (List Nat)}

/-- What a group of a pass may rely on. -/
theorem group (hsound : Sound g.rawInputs.length g.flows) (h : g.Staged groups)
    {done later : List (List Nat)} {ids : List Nat} (hsplit : groups = done ++ ids :: later) :
    ∀ id ∈ ids, id < g.size ∧ id ∉ done.flatten ∧
      ∀ source, g.references.Reads id source → source ∈ done.flatten := by
  intro id hid
  have horder : g.references.order = done.flatten ++ (ids ++ later.flatten) := by
    rw [← h.flatten, hsplit, List.flatten_append, List.flatten_cons]
  have hnodup := References.order_nodup g.references
  rw [horder, List.nodup_append] at hnodup
  refine ⟨(mem_order_iff hsound).mp ?_, fun hdone => ?_, h.reads done ids later hsplit id hid⟩
  · rw [horder]
    exact List.mem_append_right _ (List.mem_append_left _ hid)
  · exact hnodup.2.2 id hdone id (List.mem_append_left _ hid) rfl

/-- A pass from the middle on, once the groups before have succeeded. -/
theorem run_from (hsound : Sound g.rawInputs.length g.flows) (h : g.Staged groups)
    {done todo : List (List Nat)} (hsplit : groups = done ++ todo) {g' : Graph}
    (hpart : Partway g done.flatten g')
    (hok : ∀ id ∈ done.flatten, ∃ shapes, g.eval id = .ok shapes) :
    ((inferLevels todo).run g').result =
        (match g.groupFailure? todo with
          | some e => .error e
          | none => .ok (todo.flatten.any g.moves)) ∧
      ((inferLevels todo).run g').state.flows = g.flowsAfter (g.unreached todo) := by
  induction todo generalizing done g' with
  | nil =>
    have hcover : ∀ id < g.size, id ∈ done.flatten ∨ id ∈ ([] : List Nat) := by
      intro id hid
      rw [← mem_order_iff hsound, ← h.flatten, hsplit, List.append_nil] at hid
      exact .inl hid
    exact ⟨rfl, hpart.clearFlows hcover⟩
  | cons ids later ih =>
    obtain ⟨hresult, hnext⟩ := hpart.run_inferLevel hsound hok (h.group hsound hsplit)
    rw [Op.run, inferLevels, groupFailure?_cons, unreached]
    dsimp only
    cases hfirst : firstFailure (ids.map g.eval) with
    | some e =>
      rw [hfirst] at hresult
      rw [hresult]
      refine ⟨rfl, hnext.clearFlows fun id hid => ?_⟩
      rw [← mem_order_iff hsound, ← h.flatten, hsplit, List.flatten_append, List.flatten_cons,
        ← List.append_assoc, List.mem_append] at hid
      exact hid
    | none =>
      rw [hfirst] at hresult
      rw [hresult]
      have hsplit' : groups = (done ++ [ids]) ++ later := by
        rw [hsplit, List.append_assoc, List.singleton_append]
      have hflatten : (done ++ [ids]).flatten = done.flatten ++ ids := by simp
      have hok' : ∀ id ∈ (done ++ [ids]).flatten, ∃ shapes, g.eval id = .ok shapes := by
        rw [hflatten, List.forall_mem_append]
        exact ⟨hok, firstFailure_eval_eq_none_iff.mp hfirst⟩
      obtain ⟨hmore, hflows⟩ := ih hsplit' (hflatten ▸ hnext) hok'
      refine ⟨?_, hflows⟩
      show ((inferLevels later).run _).result.map _ = _
      rw [hmore, List.flatten_cons, List.any_append]
      cases g.groupFailure? later <;> rfl

end Staged

/-! ## The pass that the settings ask for -/

theorem size_setFlow (g : Graph) (id : Nat) (f : Flow) : (g.setFlow id f).size = g.size :=
  List.length_set

theorem run_inferLevel_singleton {g : Graph} {id : Nat} {f : Flow} (hf : g.flows[id]? = some f) :
    (inferLevel [id]).run g = ⟨((Flow.infer g.resolve).run f).result,
      g.setFlow id ((Flow.infer g.resolve).run f).state, ((Flow.infer g.resolve).run f).log⟩ := by
  have hlevel := run_inferLevel g [id]
  rw [outcomes_cons hf] at hlevel
  rcases hout : (Flow.infer g.resolve).run f with ⟨result, f', log⟩
  rw [hout] at hlevel
  -- The only result of the group decides how the group ends.
  cases result with
  | error e =>
    simpa [firstFailure_singleton, storeOutcomes, outcomes] using hlevel
  | ok changed =>
    have hnone : firstFailure [(.ok changed : Except Failure Bool)] = none := rfl
    cases changed <;> simpa [hnone, storeOutcomes, outcomes] using hlevel

theorem flatten_map_singleton (ids : List Nat) : (ids.map fun id => [id]).flatten = ids := by
  rw [← List.flatMap_def, List.flatMap_singleton']

/-- A pass in order takes one flow at a time. -/
theorem run_inferInOrder {g : Graph} {ids : List Nat} (h : ∀ id ∈ ids, id < g.size) :
    (inferInOrder ids).run g = (inferLevels (ids.map fun id => [id])).run g := by
  induction ids generalizing g with
  | nil => rfl
  | cons id rest ih =>
    rw [List.forall_mem_cons] at h
    obtain ⟨f, hf⟩ := getElem?_of_lt_size h.1
    have hrest : ∀ f', (inferInOrder rest).run (g.setFlow id f') =
        (inferLevels (rest.map fun id => [id])).run (g.setFlow id f') := by
      intro f'
      apply ih
      rw [size_setFlow]
      exact h.2
    rw [Op.run, Op.run, inferInOrder, List.map_cons, inferLevels]
    dsimp only
    rw [flow_eq_ok_iff.mpr hf, run_inferLevel_singleton hf]
    dsimp only
    rw [hrest, flatten_map_singleton]

theorem mem_onLevel_iff {g : Graph} {id n : Nat} :
    id ∈ g.references.onLevel n ↔ id < g.size ∧ g.references.level id = n := by
  rw [References.mem_onLevel, length_references]

/-- What stands before a level in the groups of a pass are the lower levels, and what stands behind
it are the higher ones. -/
theorem levels_split {g : Graph} (hsound : Sound g.rawInputs.length g.flows)
    {done later : List (List Nat)} {ids : List Nat}
    (h : References.groupByLevel g.references.levels = done ++ ids :: later) :
    ∃ n, ids = g.references.onLevel n ∧
      (∀ id, id ∈ done.flatten ↔ id < g.size ∧ g.references.level id < n) ∧
      ∀ id, id ∈ later.flatten ↔ id < g.size ∧ n < g.references.level id := by
  rw [References.groupByLevel_levels, length_references] at h
  obtain ⟨low, rest, hrange, rfl, hrest⟩ := List.map_eq_append_iff.mp h
  obtain ⟨n, high, rfl, rfl, rfl⟩ := List.map_eq_cons_iff.mp hrest
  refine ⟨n, rfl, ?_⟩
  -- The levels ascend, so a level stands on the side where its number puts it.
  have hsorted : (low ++ n :: high).Pairwise (· < ·) := hrange ▸ List.pairwise_lt_range
  rw [List.pairwise_append, List.pairwise_cons] at hsorted
  obtain ⟨-, ⟨hhigh, -⟩, hlow⟩ := hsorted
  have hsides : ∀ level < g.size, (level ∈ low ↔ level < n) ∧ (level ∈ high ↔ n < level) := by
    intro level hlevel
    have hmem : level ∈ low ++ n :: high := hrange ▸ List.mem_range.mpr hlevel
    have hafter := fun h : level ∈ low => hlow level h n List.mem_cons_self
    have hbefore := hhigh level
    rw [List.mem_append, List.mem_cons] at hmem
    grind
  have hmem : ∀ (levels : List Nat) (id : Nat),
      id ∈ (levels.map g.references.onLevel).flatten ↔
        id < g.size ∧ g.references.level id ∈ levels := by
    intro levels id
    simp only [List.mem_flatten, List.mem_map, exists_exists_and_eq_and, mem_onLevel_iff]
    grind
  have hlevel : ∀ id < g.size, g.references.level id < g.size := by
    intro id hid
    rw [← length_references] at hid ⊢
    exact References.level_lt_length hsound.acyclic_references hsound.inRange_references hid
  refine ⟨fun id => ?_, fun id => ?_⟩
  · rw [hmem]
    exact and_congr_right fun hid => (hsides _ (hlevel id hid)).1
  · rw [hmem]
    exact and_congr_right fun hid => (hsides _ (hlevel id hid)).2

theorem staged_levels {g : Graph} (hsound : Sound g.rawInputs.length g.flows) :
    g.Staged (References.groupByLevel g.references.levels) := by
  refine ⟨rfl, fun done ids later hsplit id hid source hread => ?_⟩
  obtain ⟨n, rfl, hdone, -⟩ := levels_split hsound hsplit
  have hlower := References.level_lt_of_reads hsound.acyclic_references
    hsound.inRange_references hread
  have hlt := hsound.inRange_references id source hread
  rw [length_references] at hlt
  rw [(mem_onLevel_iff.mp hid).2] at hlower
  exact (hdone source).mpr ⟨hlt, hlower⟩

theorem staged_singletons {g : Graph} (hsound : Sound g.rawInputs.length g.flows) :
    g.Staged (g.references.order.map fun id => [id]) := by
  refine ⟨flatten_map_singleton _, fun done ids later hsplit id hid source hread => ?_⟩
  obtain ⟨before, rest, horder, rfl, hrest⟩ := List.map_eq_append_iff.mp hsplit
  obtain ⟨first, after, rfl, rfl, -⟩ := List.map_eq_cons_iff.mp hrest
  obtain rfl := List.mem_singleton.mp hid
  rw [flatten_map_singleton]
  exact References.mem_done_of_reads hsound.acyclic_references hsound.inRange_references horder
    hread

/-- The groups of the pass that the settings ask for. -/
def stages (g : Graph) : List (List Nat) :=
  if g.config.parallel then References.groupByLevel g.references.levels
  else g.references.order.map fun id => [id]

theorem staged_stages {g : Graph} (hsound : Sound g.rawInputs.length g.flows) :
    g.Staged g.stages := by
  rw [stages]
  split
  · exact staged_levels hsound
  · exact staged_singletons hsound

/-- The pass that the settings ask for. -/
def passOf (g : Graph) : Op Failure Graph Bool :=
  if g.config.parallel then
    inferLevels (References.groupByLevel g.references.analysis.levels)
  else inferInOrder g.references.analysis.order

theorem passOf_eq {g g' : Graph} (hsound : Sound g.rawInputs.length g.flows)
    (hsize : g'.size = g.size) : (passOf g).run g' = (inferLevels g.stages).run g' := by
  rw [passOf, stages]
  split
  · rfl
  · exact run_inferInOrder fun id hid => hsize ▸ (mem_order_iff hsound).mp hid

/-- The failure at which a pass over the document stops. -/
def passFailure? (g : Graph) : Option Failure :=
  if g.config.parallel then
    g.groupFailure? (References.groupByLevel g.references.analysis.levels)
  else g.groupFailure? (g.references.order.map fun id => [id])

theorem passFailure?_eq (g : Graph) : g.passFailure? = g.groupFailure? g.stages := by
  rw [passFailure?, stages]
  split <;> rfl

/-- The answer of going through groups of flows: whether any flow moves, unless a group fails. -/
def answerOf (g : Graph) (groups : List (List Nat)) : Except Failure Bool :=
  match g.groupFailure? groups with
  | some e => .error e
  | none => .ok (g.references.order.any g.moves)

theorem answerOf_of_some {g : Graph} {groups : List (List Nat)} {e : Failure}
    (h : g.groupFailure? groups = some e) : g.answerOf groups = .error e := by
  rw [answerOf, h]

theorem answerOf_of_none {g : Graph} {groups : List (List Nat)}
    (h : g.groupFailure? groups = none) :
    g.answerOf groups = .ok (g.references.order.any g.moves) := by
  rw [answerOf, h]

/-- The answer of a pass. -/
def passResult (g : Graph) : Except Failure Bool := g.answerOf g.stages

theorem passResult_of_some {g : Graph} {e : Failure} (h : g.passFailure? = some e) :
    g.passResult = .error e := by
  rw [passFailure?_eq] at h
  exact answerOf_of_some h

theorem passResult_of_none {g : Graph} (h : g.passFailure? = none) :
    g.passResult = .ok (g.references.order.any g.moves) := by
  rw [passFailure?_eq] at h
  exact answerOf_of_none h

/-- The graph after a pass. -/
def passed (g : Graph) : Graph := { g with flows := g.flowsAfter (g.unreached g.stages) }

theorem SameFlows.stages {g g' : Graph} (h : SameFlows g g') (hconfig : g'.config = g.config) :
    g'.stages = g.stages := by
  rw [Graph.stages, Graph.stages, hconfig, h.references]

theorem SameFlows.answerOf {g g' : Graph} (h : SameFlows g g') (groups : List (List Nat)) :
    g'.answerOf groups = g.answerOf groups := by
  rw [Graph.answerOf, Graph.answerOf, h.groupFailure?, h.references, h.moves]

theorem SameFlows.passResult {g g' : Graph} (h : SameFlows g g') (hconfig : g'.config = g.config) :
    g'.passResult = g.passResult := by
  rw [Graph.passResult, Graph.passResult, h.stages hconfig, h.answerOf]

theorem SameFlows.flows_passed {g g' : Graph} (h : SameFlows g g')
    (hconfig : g'.config = g.config) : g'.passed.flows = g.passed.flows := by
  show g'.flowsAfter _ = g.flowsAfter _
  rw [h.stages hconfig, h.unreached, h.flowsAfter]

theorem eq_of_frame {g g' : Graph} (h : g'.frame = g.frame) :
    g' = { g with flows := g'.flows } := by
  have hraw := congrArg Graph.rawInputs h
  have hconfig := congrArg Graph.config h
  have hanalysis := congrArg Graph.analysis h
  cases g'
  simp only [frame] at hraw hconfig hanalysis
  subst hraw hconfig hanalysis
  rfl

/-- What a pass answers and leaves is what the document says, whatever the flows had stored; whether
the analysis is known does not matter. -/
theorem run_passOf {g : Graph} (hsound : Sound g.rawInputs.length g.flows)
    (analysis : Option Analysis) :
    (((passOf g).run { g with analysis := analysis }).result = g.passResult) ∧
      ((passOf g).run { g with analysis := analysis }).state =
        { g.passed with analysis := analysis } := by
  have hstaged := staged_stages hsound
  have hstart : Partway g [] { g with analysis := analysis } := ⟨rfl, fun _ => rfl⟩
  obtain ⟨hresult, hflows⟩ :=
    hstaged.run_from hsound (List.nil_append _).symm hstart (by simp)
  have hrun : (passOf g).run { g with analysis := analysis } =
      (inferLevels g.stages).run { g with analysis := analysis } := passOf_eq hsound rfl
  rw [hrun]
  refine ⟨?_, ?_⟩
  · rw [hresult, passResult, answerOf, hstaged.flatten]
  · rw [eq_of_frame (frame_inferLevels g.stages _), hflows]
    rfl

end LayerFlow.Graph
