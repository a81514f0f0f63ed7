/-
LayerFlow.Proofs.Graph.Inference

Inference over a whole graph finds what the document says, whatever the flows had stored before.
The first pass leaves every flow with its evaluated shapes or stops at a flow that has none; after
a first pass that went through, a second one changes nothing, and two passes are always allowed.
So an inference does exactly what its first pass does.

Main statements: `run_inferAll`, an inference as one pass, and `inferAll_eq_eval`, an inference of
a reachable graph succeeds exactly if the evaluation of every flow does, and then every flow has
its evaluated shapes; otherwise it fails as the first flow in the order of evaluation that has no
shapes.
-/
import LayerFlow.Proofs.Graph.Passes

namespace LayerFlow.Graph

open Op

/-- Among flows evaluated one after the other, the first one to fail is `id`, with `e`. -/
def StopsAt (g : Graph) (ids : List Nat) (id : Nat) (e : Failure) : Prop :=
  ∃ before after, ids = before ++ id :: after ∧
    (∀ other ∈ before, ∃ shapes, g.eval other = .ok shapes) ∧ g.eval id = .error e

/-- The flow at which an inference stops: the first one in the order of evaluation that has no
shapes. -/
def FirstToFail (g : Graph) (id : Nat) (e : Failure) : Prop := g.StopsAt g.references.order id e

/-- The flow whose evaluation fails first in the order of evaluation fails with `e`. -/
def FailsFirst (g : Graph) (e : Failure) : Prop := ∃ id, g.FirstToFail id e

/-- Flows stop at the first one of them that has no shapes. -/
theorem StopsAt.find?_eq {g : Graph} {ids : List Nat} {id : Nat} {e : Failure}
    (h : g.StopsAt ids id e) :
    (ids.find? fun other => (g.eval other).toOption.isNone) = some id := by
  obtain ⟨before, after, rfl, hbefore, herror⟩ := h
  rw [List.find?_eq_some_iff_append]
  refine ⟨by rw [herror]; rfl, before, after, rfl, fun other hother => ?_⟩
  obtain ⟨shapes, hshapes⟩ := hbefore other hother
  rw [hshapes]
  rfl

/-- There is one flow only at which an inference stops. -/
theorem FirstToFail.unique {g : Graph} {id id' : Nat} {e e' : Failure} (h : g.FirstToFail id e)
    (h' : g.FirstToFail id' e') : id = id' :=
  Option.some.inj (h.find?_eq.symm.trans h'.find?_eq)

theorem StopsAt.mem {g : Graph} {ids : List Nat} {id : Nat} {e : Failure}
    (h : g.StopsAt ids id e) : id ∈ ids := by
  obtain ⟨before, after, rfl, -, -⟩ := h
  exact List.mem_append_right _ List.mem_cons_self

theorem StopsAt.append {g : Graph} {ids : List Nat} {id : Nat} {e : Failure}
    (h : g.StopsAt ids id e) (rest : List Nat) : g.StopsAt (ids ++ rest) id e := by
  obtain ⟨before, after, rfl, hbefore, herror⟩ := h
  refine ⟨before, after ++ rest, ?_, hbefore, herror⟩
  rw [List.append_assoc, List.cons_append]

theorem StopsAt.after {g : Graph} {done ids : List Nat} {id : Nat} {e : Failure}
    (h : g.StopsAt ids id e) (hdone : ∀ other ∈ done, ∃ shapes, g.eval other = .ok shapes) :
    g.StopsAt (done ++ ids) id e := by
  obtain ⟨before, after, rfl, hbefore, herror⟩ := h
  refine ⟨done ++ before, after, (List.append_assoc ..).symm, ?_, herror⟩
  rw [List.forall_mem_append]
  exact ⟨hdone, hbefore⟩

/-- Every flow holds its evaluated shapes. -/
def Settled (g g' : Graph) : Prop := SameDocument g g' ∧ ∀ id < g.size, Holds g g' id

theorem Holds.eval {g g' : Graph} {id : Nat} (h : Holds g g' id) :
    ∃ shapes, g.eval id = .ok shapes := by
  obtain ⟨_, -, _, shapes, -, heval, -⟩ := h
  exact ⟨shapes, heval⟩

/-- The failure of a level that did not overflow is the first one. -/
theorem firstFailure_eq_some {α : Type} {results : List (Except Failure α)} {e : Failure}
    (h : firstFailure results = some e) :
    (e = .overflow ∧ .error e ∈ results) ∨ ∃ before after,
      results = before ++ .error e :: after ∧ ∀ result ∈ before, ∃ a, result = .ok a := by
  rw [firstFailure_def] at h
  split at h
  · next hmem =>
    cases h
    obtain ⟨result, hresult, heq⟩ := List.mem_filterMap.mp hmem
    cases result with
    | ok a => cases heq
    | error e =>
      cases heq
      exact .inl ⟨rfl, hresult⟩
  -- The first failure stands behind results that are no failures.
  · obtain ⟨rest, hfailures⟩ := List.head?_eq_some_iff.mp h
    obtain ⟨before, result, after, hsplit, hbefore, hresult, -⟩ :=
      List.filterMap_eq_cons_iff.mp hfailures
    cases result with
    | ok a => cases hresult
    | error e' =>
      cases hresult
      refine .inr ⟨before, after, hsplit, fun other hother => ?_⟩
      have hnone := hbefore other hother
      cases other with
      | ok a => exact ⟨a, rfl⟩
      | error e' => cases hnone

/-- The failure of a group that did not overflow is that of its first flow to fail. -/
theorem stopsAt_of_firstFailure {g : Graph} {ids : List Nat} {e : Failure}
    (h : firstFailure (ids.map g.eval) = some e) :
    (e = .overflow ∧ ∃ id ∈ ids, g.eval id = .error e) ∨ ∃ id, g.StopsAt ids id e := by
  rcases firstFailure_eq_some h with ⟨rfl, hmem⟩ | ⟨results, results', hsplit, hbefore⟩
  · exact .inl ⟨rfl, List.mem_map.mp hmem⟩
  · -- The failing flow splits the group as its result splits the results.
    obtain ⟨before, second, rfl, rfl, hsecond⟩ := List.map_eq_append_iff.mp hsplit
    obtain ⟨id, after, rfl, heval, -⟩ := List.map_eq_cons_iff.mp hsecond
    exact .inr ⟨id, before, after, rfl, fun other hother =>
      hbefore _ (List.mem_map_of_mem hother), heval⟩

theorem stopsAt_of_groupFailure? {g : Graph} {groups : List (List Nat)} {e : Failure}
    (h : g.groupFailure? groups = some e) :
    (e = .overflow ∧ ∃ id ∈ groups.flatten, g.eval id = .error e) ∨
      ∃ id, g.StopsAt groups.flatten id e := by
  obtain ⟨done, ids, later, rfl, hdone, hfirst, -⟩ := groupFailure?_eq_some h
  rw [List.flatten_append, List.flatten_cons]
  refine (stopsAt_of_firstFailure hfirst).imp ?_ fun ⟨id, hstops⟩ =>
    ⟨id, (hstops.append later.flatten).after hdone⟩
  rintro ⟨hoverflow, id, hid, heval⟩
  exact ⟨hoverflow, id, List.mem_append_right _ (List.mem_append_left _ hid), heval⟩

/-- A pass that stops without an overflow stops at the first flow that has no shapes. -/
theorem failsFirst_of_passFailure? {g : Graph} (hsound : Sound g.rawInputs.length g.flows)
    {e : Failure} (h : g.passFailure? = some e) :
    (e = .overflow ∧ ∃ id < g.size, g.eval id = .error e) ∨ FailsFirst g e := by
  rw [passFailure?_eq] at h
  have hfirst := stopsAt_of_groupFailure? h
  rw [(staged_stages hsound).flatten] at hfirst
  refine hfirst.imp_left ?_
  rintro ⟨hoverflow, id, hid, heval⟩
  exact ⟨hoverflow, id, (mem_order_iff hsound).mp hid, heval⟩

/-- Whichever way a pass failed, some flow has no shapes. -/
theorem exists_error_of_fails {g : Graph} (hsound : Sound g.rawInputs.length g.flows) {e : Failure}
    (hfails : (e = .overflow ∧ ∃ id < g.size, g.eval id = .error e) ∨ FailsFirst g e) :
    ∃ id < g.size, g.eval id = .error e := by
  rcases hfails with ⟨-, hsome⟩ | ⟨id, hfirst⟩
  · exact hsome
  · have hid : id < g.size := (mem_order_iff hsound).mp hfirst.mem
    obtain ⟨_, _, -, -, heval⟩ := hfirst
    exact ⟨id, hid, heval⟩

/-! ## After a pass that went through -/

theorem eval_ok_of_passFailure? {g : Graph} (hsound : Sound g.rawInputs.length g.flows)
    (h : g.passFailure? = none) {id : Nat} (hid : id < g.size) :
    ∃ shapes, g.eval id = .ok shapes := by
  rw [passFailure?_eq] at h
  apply eval_ok_of_groupFailure? h id
  rw [(staged_stages hsound).flatten, mem_order_iff hsound]
  exact hid

theorem getElem?_passed (g : Graph) (id : Nat) : g.passed.flows[id]? = g.flows[id]?.map fun f =>
    if id ∈ g.unreached g.stages then f.clear else g.concluded id f :=
  getElem?_flowsAfter g _ id

theorem sameDocument_passed (g : Graph) : SameDocument g g.passed := by
  refine ⟨rfl, List.ext_getElem? fun id => ?_⟩
  rw [List.getElem?_map, getElem?_passed, Option.map_map, List.getElem?_map]
  congr 1
  funext f
  rw [Function.comp_apply]
  split
  · rfl
  · exact clear_concluded g id f

theorem passOf_passed (g : Graph) : passOf g.passed = passOf g := by
  have hrefs : g.passed.references = g.references :=
    references_eq_of_inputs (sameDocument_passed g).inputs
  rw [passOf, passOf, hrefs]
  rfl

theorem sound_passed {g : Graph} (hsound : Sound g.rawInputs.length g.flows) :
    Sound g.passed.rawInputs.length g.passed.flows :=
  hsound.congr (sameDocument_passed g).inputs

/-- A pass that went through leaves every flow with its evaluated shapes. -/
theorem flow_passed {g : Graph} (hsound : Sound g.rawInputs.length g.flows)
    (hnone : g.passFailure? = none) {id : Nat} {f : Flow} (hf : g.flows[id]? = some f) :
    ∃ shapes, g.eval id = .ok shapes ∧ g.passed.flows[id]? = some (f.withShapes shapes) := by
  obtain ⟨shapes, heval⟩ :=
    eval_ok_of_passFailure? hsound hnone (List.getElem?_eq_some_iff.mp hf).1
  rw [passFailure?_eq] at hnone
  have hreached := (groupFailure?_eq_none (eval_ok_of_groupFailure? hnone)).2
  refine ⟨shapes, heval, ?_⟩
  rw [getElem?_passed, hreached, hf, Option.map_some, if_neg List.not_mem_nil,
    concluded_of_ok heval]

/-- After a pass that went through another one changes nothing. -/
theorem passed_passed {g : Graph} (hsound : Sound g.rawInputs.length g.flows)
    (hnone : g.passFailure? = none) :
    g.passed.passResult = .ok false ∧ g.passed.passed = g.passed := by
  have hdoc := sameDocument_passed g
  have hsize : g.passed.size = g.size := hdoc.length
  -- The flows of the graph that is left have the shapes that the document gives them.
  have hflow : ∀ id < g.size, ∃ f shapes, g.passed.flows[id]? = some f ∧ f.shapes = shapes ∧
      g.passed.eval id = .ok shapes ∧ f.withShapes shapes = f := by
    intro id hid
    obtain ⟨f, hf⟩ := getElem?_of_lt_size hid
    obtain ⟨shapes, heval, hpassed⟩ := flow_passed hsound hnone hf
    exact ⟨_, shapes, hpassed, rfl, (hdoc.eval id).trans heval, rfl⟩
  have hok : ∀ id ∈ g.passed.stages.flatten, ∃ shapes, g.passed.eval id = .ok shapes := by
    intro id hid
    rw [(staged_stages (sound_passed hsound)).flatten, mem_order_iff (sound_passed hsound),
      hsize] at hid
    obtain ⟨f, shapes, -, -, heval, -⟩ := hflow id hid
    exact ⟨shapes, heval⟩
  obtain ⟨hfailure, hreached⟩ := groupFailure?_eq_none hok
  rw [← passFailure?_eq] at hfailure
  refine ⟨?_, ?_⟩
  · rw [passResult_of_none hfailure]
    refine congrArg Except.ok (List.any_eq_false.mpr fun id hid => ?_)
    rw [mem_order_iff (sound_passed hsound), hsize] at hid
    obtain ⟨f, shapes, hf, hshapes, heval, -⟩ := hflow id hid
    rw [moves_eq hf heval, hshapes]
    simp [Flow.differs]
  · have hflows : g.passed.passed.flows = g.passed.flows := by
      refine List.ext_getElem? fun id => ?_
      rw [getElem?_passed, hreached]
      simp only [List.not_mem_nil, if_false]
      by_cases hid : id < g.size
      · obtain ⟨f, shapes, hf, -, heval, hsame⟩ := hflow id hid
        rw [hf, Option.map_some, concluded_of_ok heval, hsame]
      · have hnone : g.passed.flows[id]? = none := by
          rw [List.getElem?_eq_none_iff, hdoc.length]
          exact Nat.le_of_not_lt hid
        rw [hnone, Option.map_none]
    rw [eq_of_frame (show g.passed.passed.frame = g.passed.frame from rfl), hflows]

theorem settled_passed {g : Graph} (hsound : Sound g.rawInputs.length g.flows)
    (hnone : g.passFailure? = none) (analysis : Option Analysis) :
    Settled g { g.passed with analysis := analysis } := by
  refine ⟨⟨rfl, (sameDocument_passed g).flows⟩, fun id hid => ?_⟩
  obtain ⟨f, hf⟩ := getElem?_of_lt_size hid
  obtain ⟨shapes, heval, hpassed⟩ := flow_passed hsound hnone hf
  exact ⟨_, hpassed, f, shapes, hf, heval, rfl⟩

/-! ## Passes until nothing changes -/

/-- Two passes are enough once the second one changes nothing. -/
theorem yields_settle {pass : Op Failure Graph Bool} {limit left : Nat} {anyChanged changed : Bool}
    {g g' : Graph} (hleft : 2 ≤ left) (hfirst : pass.Yields g changed g')
    (hsecond : pass.Yields g' false g') :
    (settle pass limit left anyChanged).Yields g (anyChanged || changed) g' := by
  obtain ⟨rest, rfl⟩ := Nat.exists_eq_add_of_le' hleft
  -- A pass without changes is the last one.
  have hlast : ∀ (left : Nat) (anyChanged : Bool) (start : Graph), pass.Yields start false g' →
      (settle pass limit (left + 1) anyChanged).Yields start anyChanged g' := by
    intro left anyChanged start hpass
    refine yields_bind.mpr ⟨false, g', hpass, ?_⟩
    rw [if_neg Bool.false_ne_true]
    refine yields_bind.mpr ⟨g', g', yields_get.mpr ⟨rfl, rfl⟩, ?_⟩
    exact yields_bind.mpr ⟨(), g', yields_say.mpr rfl, yields_pure.mpr ⟨rfl, rfl⟩⟩
  cases changed with
  | false =>
    rw [Bool.or_false]
    exact hlast (rest + 1) anyChanged g hfirst
  | true =>
    rw [Bool.or_true]
    exact yields_bind.mpr ⟨true, g', hfirst, hlast rest true g' hsecond⟩

theorem fails_settle {pass : Op Failure Graph Bool} {limit left : Nat} {anyChanged : Bool}
    {g g' : Graph} {e : Failure} (hleft : 1 ≤ left) (hfirst : pass.Fails g e g') :
    (settle pass limit left anyChanged).Fails g e g' := by
  obtain ⟨rest, rfl⟩ := Nat.exists_eq_add_of_le' hleft
  exact fails_bind.mpr (.inl hfirst)

/-! ## Whole inferences -/

/-- What an inference relies on. -/
structure Inferable (g : Graph) : Prop where
  sound : Sound g.rawInputs.length g.flows
  passes : 2 ≤ g.config.maxPasses
  analysis : ∀ analysis, g.analysis = some analysis → analysis = g.references.analysis

theorem WellFormed.inferable {g : Graph} (h : g.WellFormed) : g.Inferable :=
  ⟨h.sound, h.config.1, h.analysis⟩

/-- An inference does what its first pass does, and keeps the analysis. -/
theorem Inferable.run_inferAll {g : Graph} (h : g.Inferable) :
    (inferAll.run g).result = g.passResult ∧
      (inferAll.run g).state = { g.passed with analysis := some g.references.analysis } := by
  rw [inferAll_eq]
  have hverified := h.sound.yields_ensureVerified h.analysis
  obtain ⟨hresult, hstate⟩ := run_passOf h.sound (some g.references.analysis)
  suffices hsettle : ((settle (passOf g) g.config.maxPasses g.config.maxPasses false).run
      { g with analysis := some g.references.analysis }).result = g.passResult ∧
      ((settle (passOf g) g.config.maxPasses g.config.maxPasses false).run
        { g with analysis := some g.references.analysis }).state =
      { g.passed with analysis := some g.references.analysis } by
    obtain ⟨hresult, hstate⟩ := hverified.run_bind fun analysis => get >>= fun g : Graph => settle
      (if g.config.parallel then inferLevels (References.groupByLevel analysis.levels)
        else inferInOrder analysis.order) g.config.maxPasses g.config.maxPasses false
    exact ⟨hresult.trans hsettle.1, hstate.trans hsettle.2⟩
  cases hfailure : g.passFailure? with
  | some e =>
    rw [passResult_of_some hfailure] at hresult ⊢
    exact fails_settle (Nat.le_of_succ_le h.passes) ⟨hresult, hstate⟩
  | none =>
    -- The second pass finds the flows as the first one left them.
    obtain ⟨hagain, hsame⟩ := passed_passed h.sound hfailure
    have hsecond := run_passOf (sound_passed h.sound) (some g.references.analysis)
    rw [passOf_passed, hagain, hsame] at hsecond
    rw [passResult_of_none hfailure] at hresult ⊢
    have hsettle : (settle (passOf g) g.config.maxPasses g.config.maxPasses false).Yields
        { g with analysis := some g.references.analysis } (false || g.references.order.any g.moves)
        { g.passed with analysis := some g.references.analysis } :=
      yields_settle h.passes ⟨hresult, hstate⟩ hsecond
    exact hsettle

/-- How an inference of a whole graph ends: settled, or with the failure of a pass. -/
theorem WellFormed.inferAll_outcome {g : Graph} (h : g.WellFormed) :
    (∃ changed g', inferAll.Yields g changed g' ∧ Settled g g') ∨
      ∃ e g', inferAll.Fails g e g' ∧ g.passFailure? = some e := by
  obtain ⟨hresult, hstate⟩ := h.inferable.run_inferAll
  cases hfailure : g.passFailure? with
  | none =>
    rw [passResult_of_none hfailure] at hresult
    exact .inl ⟨_, _, ⟨hresult, hstate⟩, settled_passed h.sound hfailure _⟩
  | some e =>
    rw [passResult_of_some hfailure] at hresult
    exact .inr ⟨e, _, ⟨hresult, hstate⟩, rfl⟩

/-- How an inference of a whole graph ends. -/
theorem WellFormed.inferAll_spec {g : Graph} (h : g.WellFormed) :
    (∃ changed g', inferAll.Yields g changed g' ∧ Settled g g') ∨
      ∃ e g', inferAll.Fails g e g' ∧
        ((e = .overflow ∧ ∃ id < g.size, g.eval id = .error e) ∨ FailsFirst g e) := by
  refine h.inferAll_outcome.imp_right ?_
  rintro ⟨e, g', hfails, hpass⟩
  exact ⟨e, g', hfails, failsFirst_of_passFailure? h.sound hpass⟩

/-- A settled graph has every flow of the document with its evaluated shapes. -/
theorem Settled.flow {g g' : Graph} (h : Settled g g') {id : Nat} {f : Flow}
    (hf : g.flows[id]? = some f) : ∃ shapes, g.eval id = .ok shapes ∧
      g'.flows[id]? = some (f.withShapes shapes) := by
  have hid : id < g.size := (List.getElem?_eq_some_iff.mp hf).1
  obtain ⟨_, hstored, found, shapes, hfound, heval, rfl⟩ := h.2 id hid
  rw [hf] at hfound
  cases hfound
  exact ⟨shapes, heval, hstored⟩

theorem WellFormed.exists_error {g : Graph} (h : g.WellFormed) {e : Failure}
    (hfails : (e = .overflow ∧ ∃ id < g.size, g.eval id = .error e) ∨ FailsFirst g e) :
    ∃ id < g.size, g.eval id = .error e :=
  exists_error_of_fails h.sound hfails

/-- Inference computes what the document says, whatever happened to the graph before.  It succeeds
exactly if the evaluation of every flow does; then every flow is inferred with exactly its
evaluated shapes and nothing else of it changes.  Otherwise, unless a number overflows, it fails
as the first flow in the order of evaluation that has no shapes. -/
theorem inferAll_eq_eval {g : Graph} (h : g.Reachable) :
    ((∃ changed, (inferAll.run g).result = .ok changed) ↔
        ∀ id < g.size, ∃ shapes, g.eval id = .ok shapes) ∧
      (∀ changed, (inferAll.run g).result = .ok changed →
        (inferAll.run g).state.rawInputs = g.rawInputs ∧
        (inferAll.run g).state.size = g.size ∧
        ∀ id f, g.flows[id]? = some f → ∃ shapes, g.eval id = .ok shapes ∧
          (inferAll.run g).state.flows[id]? = some (f.withShapes shapes)) ∧
      ∀ e, (inferAll.run g).result = .error e → e ≠ .overflow → g.FailsFirst e := by
  -- Two ends: all flows settled, or a failure that the evaluation of some flow shares.
  rcases h.wellFormed.inferAll_spec with ⟨changed, g', ⟨hresult, rfl⟩, hsettled⟩ |
    ⟨e, g', ⟨hresult, -⟩, hfails⟩
  · refine ⟨⟨fun _ id hid => (hsettled.2 id hid).eval, fun _ => ⟨changed, hresult⟩⟩,
      fun _ _ => ?_, fun e he => ?_⟩
    · exact ⟨hsettled.1.rawInputs, hsettled.1.length, fun id f hf => hsettled.flow hf⟩
    · rw [hresult] at he
      cases he
  · obtain ⟨id, hid, herror⟩ := h.wellFormed.exists_error hfails
    refine ⟨⟨fun ⟨changed, hok⟩ => ?_, fun hok => ?_⟩, fun changed hok => ?_, fun e' he' hne => ?_⟩
    · rw [hresult] at hok
      cases hok
    · obtain ⟨shapes, hshapes⟩ := hok id hid
      rw [herror] at hshapes
      cases hshapes
    · rw [hresult] at hok
      cases hok
    · rw [hresult] at he'
      cases he'
      exact hfails.resolve_left fun hoverflow => hne hoverflow.1

/-- The flow that reads two others gets their channels stacked. -/
theorem inferAll_eq_eval_diamond : (inferAll.run diamond).state.flows[3]? =
    some ((Flow.fresh "join" [.flow 1, .flow 2] [.softMax ⟨.softMax⟩]).withShapes
      ⟨[⟨4, 4, 3, 1⟩, ⟨4, 4, 3, 1⟩], [⟨4, 4, 6, 1⟩], ⟨4, 4, 6, 1⟩, ⟨4, 4, 6, 1⟩⟩) := by
  have hok : (inferAll.run diamond).result = .ok true := rfl
  obtain ⟨-, -, hall⟩ := (inferAll_eq_eval reachable_diamond).2.1 true hok
  obtain ⟨shapes, heval, hflow⟩ := hall 3 _ rfl
  have hshapes : diamond.eval 3 =
      .ok ⟨[⟨4, 4, 3, 1⟩, ⟨4, 4, 3, 1⟩], [⟨4, 4, 6, 1⟩], ⟨4, 4, 6, 1⟩, ⟨4, 4, 6, 1⟩⟩ := rfl
  rw [heval] at hshapes
  cases hshapes
  exact hflow

end LayerFlow.Graph
