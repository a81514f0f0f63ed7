/-
LayerFlow.Proofs.Graph.Modes

Inference flow by flow against inference level by level.  No flow of a level reads another one of
it, so both modes find the same shapes, and they stop at the same flow if one has none.  What they
have inferred by then differs: level by level, the flows beside the failing one are done as well.

Main statements: `inferAll_modes`, both modes give the same answer, and `inferAll_modes_error`,
what each of them leaves after a failure.
-/
import LayerFlow.Proofs.Graph.Edits
import LayerFlow.Proofs.Graph.Settling

namespace LayerFlow.Graph

open Op

/-! ## The two modes -/

/-- The graph in one of the two modes: level by level with so many workers, or flow by flow. -/
def inMode (g : Graph) (parallel : Bool) (workers : Nat) : Graph :=
  { g with config := { g.config with parallel := parallel, workers := workers } }

theorem stages_parallel (g : Graph) (workers : Nat) :
    (g.inMode true workers).stages = References.groupByLevel g.references.levels := rfl

theorem stages_sequential (g : Graph) (workers : Nat) :
    (g.inMode false workers).stages = g.references.order.map fun id => [id] := rfl

theorem Inferable.inMode {g : Graph} (h : g.Inferable) (parallel : Bool) (workers : Nat) :
    (g.inMode parallel workers).Inferable :=
  ⟨h.sound, h.passes, h.analysis⟩

/-- What an inference in a mode leaves if it does not reach some of the flows. -/
def leftIn (g : Graph) (parallel : Bool) (workers : Nat) (unreached : List Nat) : Graph :=
  { g.inMode parallel workers with
    flows := g.flowsAfter unreached
    analysis := some g.references.analysis }

/-- An inference in a mode does what going through the groups of the mode does. -/
theorem Inferable.run_inMode {g : Graph} (h : g.Inferable) {parallel : Bool} {workers : Nat}
    {groups : List (List Nat)} (hgroups : (g.inMode parallel workers).stages = groups) :
    (inferAll.run (g.inMode parallel workers)).result = g.answerOf groups ∧
      (inferAll.run (g.inMode parallel workers)).state =
        g.leftIn parallel workers (g.unreached groups) := by
  have hsame : SameFlows g (g.inMode parallel workers) := ⟨rfl, rfl⟩
  obtain ⟨hresult, hstate⟩ := (h.inMode parallel workers).run_inferAll
  refine ⟨?_, ?_⟩
  · rw [hresult, passResult, hgroups, hsame.answerOf]
  · rw [hstate, passed, hgroups, hsame.unreached, hsame.flowsAfter, hsame.references, leftIn]

/-- A failing flow ends an inference by levels with its level. -/
theorem exists_firstToFail_of_levels {g : Graph} (hsound : Sound g.rawInputs.length g.flows)
    {e : Failure} (h : g.groupFailure? (References.groupByLevel g.references.levels) = some e)
    (hne : e ≠ .overflow) :
    ∃ failing, g.FirstToFail failing e ∧
      ∀ id, id ∈ g.unreached (References.groupByLevel g.references.levels) ↔
        id < g.size ∧ g.references.level failing < g.references.level id := by
  obtain ⟨done, ids, later, hsplit, hdone, hfirst, hleft⟩ := groupFailure?_eq_some h
  obtain ⟨n, rfl, -, hlater⟩ := levels_split hsound hsplit
  rcases stopsAt_of_firstFailure hfirst with ⟨hoverflow, -⟩ | ⟨failing, hstops⟩
  · exact absurd hoverflow hne
  have horder : g.references.order =
      done.flatten ++ (g.references.onLevel n ++ later.flatten) := by
    rw [References.order, hsplit, List.flatten_append, List.flatten_cons]
  refine ⟨failing, ?_, fun id => ?_⟩
  · rw [FirstToFail, horder]
    exact (hstops.append later.flatten).after hdone
  · rw [hleft, hlater, (mem_onLevel_iff.mp hstops.mem).2]

/-- A failing flow ends an inference in order with itself. -/
theorem FirstToFail.inOrder {g : Graph} (hsound : Sound g.rawInputs.length g.flows) {failing : Nat}
    {e : Failure} (h : g.FirstToFail failing e) :
    g.groupFailure? (g.references.order.map fun id => [id]) = some e ∧
      ∀ id, id ∈ g.unreached (g.references.order.map fun id => [id]) ↔
        id < g.size ∧ (g.references.level failing < g.references.level id ∨
          g.references.level failing = g.references.level id ∧ failing < id) := by
  obtain ⟨before, after, horder, hbefore, heval⟩ := h
  have hgroups : (g.references.order.map fun id => [id]) =
      (before.map fun id => [id]) ++ [failing] :: after.map fun id => [id] := by
    rw [horder, List.map_append, List.map_cons]
  have hok : ∀ id ∈ (before.map fun id => [id]).flatten, ∃ shapes, g.eval id = .ok shapes := by
    rwa [flatten_map_singleton]
  have hfirst : firstFailure ([failing].map g.eval) = some e := by
    rw [List.map_singleton, heval, firstFailure_singleton]
  obtain ⟨hfailure, hleft⟩ := groupFailure?_append hok ([failing] :: after.map fun id => [id])
  rw [groupFailure?_cons, hfirst] at hfailure
  rw [unreached, hfirst, flatten_map_singleton] at hleft
  rw [hgroups]
  refine ⟨hfailure, fun id => ?_⟩
  -- What stands behind a flow in the order is on a higher level, or beside it with a higher id.
  have hsorted := References.order_pairwise g.references
  rw [horder, List.pairwise_append, List.pairwise_cons] at hsorted
  obtain ⟨-, ⟨hafter, -⟩, hfront⟩ := hsorted
  rw [hleft, ← mem_order_iff hsound, horder, List.mem_append, List.mem_cons]
  constructor
  · exact fun hid => ⟨.inr (.inr hid), hafter id hid⟩
  · rintro ⟨hid | rfl | hid, hbehind⟩
    · have := hfront id hid failing List.mem_cons_self
      omega
    · omega
    · exact hid

/-- A flow on the level of a failing one, with a higher id.  In order it would be next. -/
def Beside (g : Graph) (failing id : Nat) : Prop :=
  g.references.level failing = g.references.level id ∧ failing < id

/-- The flows that are not reached once a flow has failed: by levels only those on higher levels, in
order also those beside it. -/
structure Missed (g : Graph) (failing : Nat) (above behind : List Nat) : Prop where
  mem_above : ∀ id, id ∈ above ↔
    id < g.size ∧ g.references.level failing < g.references.level id
  mem_behind : ∀ id, id ∈ behind ↔ id ∈ above ∨ id < g.size ∧ g.Beside failing id

/-- An inference in either mode goes through all flows, or both stop at the same flow.  That the one
by levels does not overflow means that the other one does not either. -/
theorem Inferable.run_modes {g : Graph} (h : g.Inferable) (workers workers' : Nat)
    (hfits : (inferAll.run (g.inMode true workers)).result ≠ .error .overflow) :
    (∃ changed, inferAll.Yields (g.inMode true workers) changed (g.leftIn true workers []) ∧
        inferAll.Yields (g.inMode false workers') changed (g.leftIn false workers' [])) ∨
      ∃ e failing above behind, g.FirstToFail failing e ∧
        g.Missed failing above behind ∧
        inferAll.Fails (g.inMode true workers) e (g.leftIn true workers above) ∧
        inferAll.Fails (g.inMode false workers') e (g.leftIn false workers' behind) := by
  obtain ⟨hresult, hstate⟩ := h.run_inMode (stages_parallel g workers)
  obtain ⟨hresult', hstate'⟩ := h.run_inMode (stages_sequential g workers')
  rw [hresult] at hfits
  cases hfailure : g.groupFailure? (References.groupByLevel g.references.levels) with
  | none =>
    rw [answerOf_of_none hfailure] at hresult
    have hok := eval_ok_of_groupFailure? hfailure
    have hok' : ∀ id ∈ (g.references.order.map fun id => [id]).flatten,
        ∃ shapes, g.eval id = .ok shapes := by
      rw [flatten_map_singleton]
      exact hok
    obtain ⟨hfailure', hleft'⟩ := groupFailure?_eq_none hok'
    rw [(groupFailure?_eq_none hok).2] at hstate
    rw [answerOf_of_none hfailure'] at hresult'
    rw [hleft'] at hstate'
    exact .inl ⟨_, ⟨hresult, hstate⟩, ⟨hresult', hstate'⟩⟩
  | some e =>
    rw [answerOf_of_some hfailure] at hfits hresult
    have hne : e ≠ .overflow := fun heq => hfits (congrArg Except.error heq)
    obtain ⟨failing, hfirst, habove⟩ := exists_firstToFail_of_levels h.sound hfailure hne
    obtain ⟨hfailure', hbehind⟩ := hfirst.inOrder h.sound
    rw [answerOf_of_some hfailure'] at hresult'
    refine .inr ⟨e, failing, _, _, hfirst, ⟨habove, fun id => ?_⟩, ⟨hresult, hstate⟩,
      ⟨hresult', hstate'⟩⟩
    rw [hbehind, habove, ← and_or_left, Beside]

/-! ## The same answer -/

/-- A document whose shapes fit the machine does not overflow in either mode. -/
theorem Inferable.ne_overflow {g : Graph} (h : g.Inferable)
    (hfits : ∀ id < g.size, g.eval id ≠ .error .overflow) (parallel : Bool) (workers : Nat) :
    (inferAll.run (g.inMode parallel workers)).result ≠ .error .overflow := by
  have hsame : SameFlows g (g.inMode parallel workers) := ⟨rfl, rfl⟩
  intro hresult
  obtain ⟨id, hid, heval⟩ := (h.inMode parallel workers).exists_error hresult
  rw [hsame.eval] at heval
  exact hfits id hid heval

theorem Inferable.result_modes {g : Graph} (h : g.Inferable) (workers workers' : Nat)
    (hfits : (inferAll.run (g.inMode true workers)).result ≠ .error .overflow) :
    (inferAll.run (g.inMode true workers)).result =
      (inferAll.run (g.inMode false workers')).result := by
  rcases h.run_modes workers workers' hfits with
    ⟨changed, ⟨hresult, -⟩, hresult', -⟩ | ⟨e, -, -, -, -, -, ⟨hresult, -⟩, hresult', -⟩
  · exact hresult.trans hresult'.symm
  · exact hresult.trans hresult'.symm

/-- Both modes give the same answer, with any number of workers: the same flag, or the failure of
the same flow.  If it is a flag, they leave the same flows and the same analysis.  The inference by
levels does not overflow if the shapes of the document fit the machine (`Inferable.ne_overflow`),
but a flow that no inference reaches may be too large. -/
theorem inferAll_modes {g : Graph} (h : g.Reachable) (workers workers' : Nat)
    (hfits : (inferAll.run (g.inMode true workers)).result ≠ .error .overflow) :
    (inferAll.run (g.inMode true workers)).result =
        (inferAll.run (g.inMode false workers')).result ∧
      ∀ changed, (inferAll.run (g.inMode true workers)).result = .ok changed →
        (inferAll.run (g.inMode true workers)).state.flows =
            (inferAll.run (g.inMode false workers')).state.flows ∧
          (inferAll.run (g.inMode true workers)).state.analysis =
            (inferAll.run (g.inMode false workers')).state.analysis := by
  have hinferable := h.wellFormed.inferable
  refine ⟨hinferable.result_modes workers workers' hfits, fun changed hok => ?_⟩
  rcases hinferable.run_modes workers workers' hfits with
    ⟨_, ⟨-, hstate⟩, -, hstate'⟩ | ⟨e, -, -, -, -, -, ⟨hresult, -⟩, -⟩
  · rw [hstate, hstate']
    exact ⟨rfl, rfl⟩
  · rw [hresult] at hok
    cases hok

/-- Both modes find the shapes of the document. -/
theorem inferAll_modes_diamond :
    (inferAll.run (diamond.inMode true 3)).result = .ok true ∧
      (inferAll.run (diamond.inMode true 3)).state.flows =
        (inferAll.run (diamond.inMode false 1)).state.flows := by
  have hok : (inferAll.run (diamond.inMode true 3)).result = .ok true := rfl
  have hfits : (inferAll.run (diamond.inMode true 3)).result ≠ .error .overflow := by
    rw [hok]
    rintro ⟨⟩
  exact ⟨hok, ((inferAll_modes reachable_diamond 3 1 hfits).2 true hok).1⟩

/-! ## Edits in both modes -/

/-- The second graph is the first one in a mode. -/
def ModeOf (parallel : Bool) (workers : Nat) (g g' : Graph) : Prop := g' = g.inMode parallel workers

section

variable (parallel : Bool) (workers : Nat)

theorem related_editFlows (change : List Flow → Except Failure (List Flow)) :
    Related (ModeOf parallel workers) (editFlows change) (editFlows change) := by
  rw [editFlows_eq]
  refine related_get_bind ?_
  rintro g _ rfl
  refine related_bind (related_ofExcept (change g.flows)) (fun flows => ?_) g _ rfl
  exact related_bind (related_ofExcept _) fun _ => related_set rfl

theorem related_insertFlow (index : Nat) (f : Flow) :
    Related (ModeOf parallel workers) (Graph.insertFlow index f) (Graph.insertFlow index f) := by
  refine related_get_bind ?_
  rintro g _ rfl
  have hsize : (g.inMode parallel workers).size = g.size := rfl
  rw [hsize]
  split
  · refine related_bind (related_editFlows parallel workers _) (fun _ => ?_) g _ rfl
    exact related_bind (related_say _ _ _ _) fun _ => related_pure index
  · exact related_fail _ g _ rfl

/-- No edit looks at the mode, and none changes it. -/
theorem related_edit (e : Edit) : Related (ModeOf parallel workers) e.run e.run := by
  have hinsert := related_insertFlow parallel workers
  cases e with
  | addFlow f =>
    refine related_bind (related_get_bind ?_) fun _ => related_pure ()
    rintro g _ rfl
    refine related_bind (related_editFlows parallel workers _) (fun _ => ?_) g _ rfl
    exact related_bind (related_say _ _ _ _) fun _ => related_pure g.size
  | insertFlow index f => exact related_bind (hinsert index f) fun _ => related_pure ()
  | removeFlow id =>
    refine related_bind (related_get_bind ?_) fun _ => related_pure ()
    rintro g _ rfl
    refine related_bind (related_ofExcept (g.flow id)) (fun removed => ?_) g _ rfl
    refine related_bind (related_note _ _) fun _ => related_bind (related_set rfl) fun _ => ?_
    exact related_bind (related_say _ _ _ _) fun _ => related_pure removed
  | duplicateFlow id =>
    refine related_bind (related_get_bind ?_) fun _ => related_pure ()
    rintro g _ rfl
    exact related_bind (related_ofExcept (g.flow id)) (fun f => hinsert (id + 1) _) g _ rfl
  | addInputSource id source =>
    refine related_get_bind ?_
    rintro g _ rfl
    refine related_bind (related_ofExcept (g.flow id)) (fun f => ?_) g _ rfl
    exact related_mapError (related_editFlows parallel workers _)
  | removeInputSource id index =>
    refine related_bind (related_get_bind ?_) fun _ => related_pure ()
    rintro g _ rfl
    refine related_bind (related_ofExcept (g.flow id)) (fun f => ?_) g _ rfl
    cases f.inputs[index]? with
    | none => exact related_fail _
    | some source => exact related_bind (related_set rfl) fun _ => related_pure source
  | addRawInput shape =>
    refine related_bind (related_get_bind ?_) fun _ => related_pure ()
    rintro g _ rfl
    exact ⟨rfl, rfl⟩
  | setRawInput slot shape =>
    refine related_get_bind ?_
    rintro g _ rfl
    have hraw : (g.inMode parallel workers).rawInputs = g.rawInputs := rfl
    rw [hraw]
    split
    · exact ⟨rfl, rfl⟩
    · exact related_fail _ g _ rfl

end

/-- The graph after some edits, each of them accepted or refused. -/
def edited (g : Graph) (history : List Edit) : Graph :=
  history.foldl (fun g e => (e.run.run g).state) g

theorem edited_inMode (g : Graph) (parallel : Bool) (workers : Nat) (history : List Edit) :
    (g.inMode parallel workers).edited history = (g.edited history).inMode parallel workers := by
  induction history generalizing g with
  | nil => rfl
  | cons e history ih =>
    have hstep := (related_edit parallel workers e g _ rfl).2
    show ((e.run.run (g.inMode parallel workers)).state).edited history = _
    rw [hstep]
    exact ih _

theorem config_edit (e : Edit) (g : Graph) : (e.run.run g).state.config = g.config := by
  rcases yields_or_fails e.run g with ⟨_, hyields⟩ | ⟨err, hfails⟩
  · obtain ⟨rawInputs, -, -, hstate⟩ := Edit.resetAll_of_yields hyields
    rw [hstate]
    rfl
  · rw [Edit.eq_of_fails hfails]

theorem Inferable.edit {g : Graph} (h : g.Inferable) (e : Edit) :
    (e.run.run g).state.Inferable := by
  rcases yields_or_fails e.run g with ⟨_, hyields⟩ | ⟨err, hfails⟩
  · obtain ⟨rawInputs, -, hsound, hstate⟩ := Edit.resetAll_of_yields hyields
    rw [hstate]
    refine ⟨sound_resetAll (hsound h.sound), h.passes, ?_⟩
    rintro analysis ⟨⟩
  · rw [Edit.eq_of_fails hfails]
    exact h

theorem config_edited (g : Graph) (history : List Edit) : (g.edited history).config = g.config := by
  induction history generalizing g with
  | nil => rfl
  | cons e history ih => exact (ih _).trans (config_edit e g)

theorem Inferable.edited {g : Graph} (h : g.Inferable) (history : List Edit) :
    (g.edited history).Inferable := by
  induction history generalizing g with
  | nil => exact h
  | cons e history ih => exact ih (h.edit e)

/-! ## What a failure leaves in both modes -/

theorem inMode_eq_self {g : Graph} {parallel : Bool} {workers : Nat}
    (hparallel : g.config.parallel = parallel) (hworkers : g.config.workers = workers) :
    g.inMode parallel workers = g := by
  subst hparallel hworkers
  rfl

/-- A flow to which the document gives shapes has them, unless it is not reached. -/
theorem getElem?_leftIn_of_ok {g : Graph} {id : Nat} {f : Flow} {shapes : FlowShapes}
    (hf : g.flows[id]? = some f) (heval : g.eval id = .ok shapes) (parallel : Bool) (workers : Nat)
    (unreached : List Nat) : (g.leftIn parallel workers unreached).flows[id]? =
      some (if id ∈ unreached then f.clear else f.withShapes shapes) := by
  have hleft := getElem?_flowsAfter g unreached id
  rw [hf, Option.map_some, concluded_of_ok heval] at hleft
  exact hleft

/-- Of flows to which the document gives no shapes, nothing is left in either mode. -/
theorem getElem?_leftIn_of_not_ok {g : Graph} {id : Nat}
    (hnone : ∀ shapes, g.eval id ≠ .ok shapes) (parallel : Bool) (workers : Nat)
    (unreached : List Nat) :
    (g.leftIn parallel workers unreached).flows[id]? = g.flows[id]?.map Flow.clear := by
  have hleft := getElem?_flowsAfter g unreached id
  cases heval : g.eval id with
  | ok shapes => exact absurd heval (hnone shapes)
  | error e =>
    simp only [concluded_of_error heval, ite_self] at hleft
    exact hleft

section

variable {g : Graph} {failing : Nat} {above behind : List Nat} (workers workers' : Nat)

/-- A flow beside the failing one has its shapes after an inference by levels only. -/
theorem Missed.getElem?_of_beside (h : g.Missed failing above behind) {id : Nat} {f : Flow}
    {shapes : FlowShapes} (hf : g.flows[id]? = some f) (hbeside : g.Beside failing id)
    (heval : g.eval id = .ok shapes) :
    (g.leftIn true workers above).flows[id]? = some (f.withShapes shapes) ∧
      (g.leftIn false workers' behind).flows[id]? = some f.clear := by
  have hid : id < g.size := (List.getElem?_eq_some_iff.mp hf).1
  have hreached : id ∉ above := by
    rw [h.mem_above, hbeside.1]
    exact fun h => Nat.lt_irrefl _ h.2
  have hleft : id ∈ behind := (h.mem_behind id).mpr (.inr ⟨hid, hbeside⟩)
  rw [getElem?_leftIn_of_ok hf heval, getElem?_leftIn_of_ok hf heval, if_neg hreached,
    if_pos hleft]
  exact ⟨rfl, rfl⟩

/-- Any other flow is left alike. -/
theorem Missed.getElem?_eq (h : g.Missed failing above behind) {id : Nat}
    (hother : ¬ (g.Beside failing id ∧ ∃ shapes, g.eval id = .ok shapes)) :
    (g.leftIn true workers above).flows[id]? = (g.leftIn false workers' behind).flows[id]? := by
  by_cases hnone : ∀ shapes, g.eval id ≠ .ok shapes
  · rw [getElem?_leftIn_of_not_ok hnone, getElem?_leftIn_of_not_ok hnone]
  obtain ⟨shapes, heval⟩ := not_forall_not.mp hnone
  have hreached : id ∈ behind ↔ id ∈ above := by
    rw [h.mem_behind, or_iff_left]
    exact fun hbehind => hother ⟨hbehind.2, shapes, heval⟩
  cases hf : g.flows[id]? with
  | none =>
    rw [leftIn, leftIn, getElem?_flowsAfter, getElem?_flowsAfter, hf]
    rfl
  | some f =>
    rw [getElem?_leftIn_of_ok hf heval, getElem?_leftIn_of_ok hf heval]
    simp only [hreached]

end

/-- Graphs that only the mode tells apart give the same answers after the same edits. -/
theorem Inferable.result_edited {g : Graph} (h : g.Inferable)
    (hparallel : g.config.parallel = false) (workers : Nat) (history : List Edit)
    (hfits : (inferAll.run ((g.inMode true workers).edited history)).result ≠ .error .overflow) :
    (inferAll.run ((g.inMode true workers).edited history)).result =
      (inferAll.run (g.edited history)).result := by
  have hconfig := config_edited g history
  rw [edited_inMode] at hfits ⊢
  have hmodes := (h.edited history).result_modes workers g.config.workers hfits
  rwa [inMode_eq_self ((congrArg Config.parallel hconfig).trans hparallel)
    (congrArg Config.workers hconfig)] at hmodes

/-- After an inference by levels that failed, one in order would have failed in the same way, and
left the same except for the flows beside the failing one to which the document gives shapes: by
levels these have been inferred, in order they have not been reached.  Without such a flow only the
mode tells the graphs apart that are left, and after any edits the next inferences give the same
answer again. -/
theorem inferAll_modes_error {g g' : Graph} (h : g.Reachable) (workers workers' : Nat) {e : Failure}
    (hfails : inferAll.Fails (g.inMode true workers) e g') (hne : e ≠ .overflow) :
    ∃ failing g'', g.FirstToFail failing e ∧ inferAll.Fails (g.inMode false workers') e g'' ∧
      (∀ id f shapes, g.flows[id]? = some f → g.Beside failing id → g.eval id = .ok shapes →
        g'.flows[id]? = some (f.withShapes shapes) ∧ g''.flows[id]? = some f.clear) ∧
      (∀ id, ¬ (g.Beside failing id ∧ ∃ shapes, g.eval id = .ok shapes) →
        g'.flows[id]? = g''.flows[id]?) ∧
      ((∀ id, g.Beside failing id → ∀ shapes, g.eval id ≠ .ok shapes) →
        g' = g''.inMode true workers ∧
        ∀ history, (inferAll.run (g'.edited history)).result ≠ .error .overflow →
          (inferAll.run (g'.edited history)).result =
            (inferAll.run (g''.edited history)).result) := by
  have hinferable := h.wellFormed.inferable
  have hfits : (inferAll.run (g.inMode true workers)).result ≠ .error .overflow := by
    rw [hfails.1]
    exact fun heq => hne (Except.error.inj heq)
  rcases hinferable.run_modes workers workers' hfits with
    ⟨changed, ⟨hok, -⟩, -⟩ | ⟨_, failing, above, behind, hfirst, hmissed, hpar, hseq⟩
  · rw [hfails.1] at hok
    cases hok
  obtain rfl := Except.error.inj (hpar.1.symm.trans hfails.1)
  obtain rfl := hpar.2.symm.trans hfails.2
  refine ⟨failing, _, hfirst, hseq, fun id f shapes hf hbeside heval => ?_, fun id hother => ?_,
    fun hnone => ?_⟩
  · exact hmissed.getElem?_of_beside workers workers' hf hbeside heval
  · exact hmissed.getElem?_eq workers workers' hother
  · have hflows : g.flowsAfter above = g.flowsAfter behind :=
      List.ext_getElem? fun id => hmissed.getElem?_eq workers workers'
        fun ⟨hbeside, shapes, heval⟩ => hnone id hbeside shapes heval
    have hmode : g.leftIn true workers above =
        (g.leftIn false workers' behind).inMode true workers := by
      rw [leftIn, hflows]
      rfl
    have hleft : (g.leftIn false workers' behind).Inferable :=
      hseq.2 ▸ (hinferable.inMode false workers').afterwards
    refine ⟨hmode, fun history hlater => ?_⟩
    rw [hmode] at hlater ⊢
    exact hleft.result_edited rfl workers history hlater

/-- The second flow of the document stands beside the failing one: it has shapes after an inference
by levels, and none after one in order. -/
theorem inferAll_modes_error_uneven :
    (inferAll.run (uneven.inMode true 2)).state.flows[1]? =
        some ((Flow.fresh "plain" [.raw 0] []).withShapes
          ⟨[⟨4, 4, 3, 1⟩], [], ⟨4, 4, 3, 1⟩, ⟨4, 4, 3, 1⟩⟩) ∧
      (inferAll.run (uneven.inMode false 1)).state.flows[1]? =
        some (.fresh "plain" [.raw 0] []) := by
  have hfails : inferAll.Fails (uneven.inMode true 2) unevenFailure
      (inferAll.run (uneven.inMode true 2)).state := ⟨rfl, rfl⟩
  obtain ⟨failing, left, hfirst, ⟨-, hleft⟩, hbeside, -⟩ :=
    inferAll_modes_error reachable_uneven 2 1 hfails (by decide)
  obtain rfl := hfirst.unique firstToFail_uneven
  obtain ⟨hparallel, hsequential⟩ := hbeside 1 _ _ rfl ⟨rfl, by decide⟩ rfl
  rw [hleft]
  exact ⟨hparallel, hsequential⟩

/-- Once the two other flows are removed, the next inference reports a change in one mode and none
in the other: a failure does not leave the same in both. -/
theorem not_inferAll_modes_error_same :
    ¬ ∀ g : Graph, g.Reachable → (∀ id < g.size, g.eval id ≠ .error .overflow) →
      ∀ (workers workers' : Nat) (e : Failure),
        (inferAll.run (g.inMode true workers)).result = .error e →
        let parallel := (inferAll.run (g.inMode true workers)).state
        let sequential := (inferAll.run (g.inMode false workers')).state
        parallel.flows = sequential.flows ∧ ∀ history,
          (inferAll.run (parallel.edited history)).result =
            (inferAll.run (sequential.edited history)).result := by
  intro h
  have hfits : ∀ id < uneven.size, uneven.eval id ≠ .error .overflow := by decide +kernel
  have hinferable := reachable_uneven.wellFormed.inferable
  -- What the next inference answers, from the flows that the edits leave.
  have hnext : ∀ parallel workers, (inferAll.run ((inferAll.run
      (uneven.inMode parallel workers)).state.edited [.removeFlow 2, .removeFlow 0])).result =
      ((inferAll.run (uneven.inMode parallel workers)).state.edited
        [.removeFlow 2, .removeFlow 0]).passResult := fun parallel workers =>
    (((hinferable.inMode parallel workers).afterwards).edited _).run_inferAll.1
  obtain ⟨-, hagree⟩ := h uneven reachable_uneven hfits 2 1 unevenFailure rfl
  have hanswers := hagree [.removeFlow 2, .removeFlow 0]
  rw [hnext, hnext] at hanswers
  have hparallel : ((inferAll.run (uneven.inMode true 2)).state.edited
      [.removeFlow 2, .removeFlow 0]).passResult = .ok false := rfl
  have hsequential : ((inferAll.run (uneven.inMode false 1)).state.edited
      [.removeFlow 2, .removeFlow 0]).passResult = .ok true := rfl
  rw [hparallel, hsequential] at hanswers
  cases hanswers

end LayerFlow.Graph
