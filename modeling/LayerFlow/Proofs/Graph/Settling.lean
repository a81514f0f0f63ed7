/-
LayerFlow.Proofs.Graph.Settling

How an inference of a whole graph ends.  It never runs out of passes: the first pass finds the
shapes that the document gives, and a second one finds them unchanged.  The answer of an inference
that succeeds tells whether any flow has got another input or output than it had before, and an
inference that fails leaves no shapes behind that the document does not give.

Main statements: `inferAll_settles`, what an inference that succeeds reports and leaves, and
`inferAll_error_leaves`, what one that fails leaves.
-/
import LayerFlow.Proofs.Graph.Analysis
import LayerFlow.Proofs.Graph.Inference

namespace LayerFlow.Graph

open Op

/-! ## Inferences that succeed -/

/-- Running out of passes is no failure of a flow. -/
theorem eval_ne_notSettled {g : Graph} (hsound : Sound g.rawInputs.length g.flows) {id : Nat}
    (hid : id < g.size) (passes : Nat) : g.eval id ≠ .error (.notSettled passes) := by
  intro heval
  rcases eval_error hsound hid heval with hoverflow | ⟨f, -, hempty | ⟨l, -, fault, hfault⟩⟩
  · cases hoverflow
  · cases hempty
  · cases hfault

/-- An inference fails with the failure of a pass. -/
theorem Inferable.passFailure?_eq {g : Graph} (h : g.Inferable) {e : Failure}
    (hresult : (inferAll.run g).result = .error e) : g.passFailure? = some e := by
  rw [h.run_inferAll.1] at hresult
  cases hfailure : g.passFailure? with
  | none =>
    rw [passResult_of_none hfailure] at hresult
    cases hresult
  | some e' =>
    rw [passResult_of_some hfailure] at hresult
    rw [Except.error.inj hresult]

theorem Inferable.exists_error {g : Graph} (h : g.Inferable) {e : Failure}
    (hresult : (inferAll.run g).result = .error e) : ∃ id < g.size, g.eval id = .error e :=
  exists_error_of_fails h.sound (failsFirst_of_passFailure? h.sound (h.passFailure?_eq hresult))

theorem Inferable.ne_notSettled {g : Graph} (h : g.Inferable) (passes : Nat) :
    (inferAll.run g).result ≠ .error (.notSettled passes) := by
  intro hresult
  obtain ⟨id, hid, heval⟩ := h.exists_error hresult
  exact eval_ne_notSettled h.sound hid passes heval

/-- An inference succeeds with the answer of a pass that went through. -/
theorem passFailure?_eq_none_of_ok {g : Graph} {changed : Bool} (h : g.passResult = .ok changed) :
    g.passFailure? = none ∧ changed = g.references.order.any g.moves := by
  cases hfailure : g.passFailure? with
  | some e =>
    rw [passResult_of_some hfailure] at h
    cases h
  | none =>
    rw [passResult_of_none hfailure] at h
    exact ⟨rfl, (Except.ok.inj h).symm⟩

/-- A pass that goes through reports exactly whether the input or the output of a flow changes. -/
theorem any_moves_iff {g : Graph} (hsound : Sound g.rawInputs.length g.flows)
    (hnone : g.passFailure? = none) :
    g.references.order.any g.moves = true ↔ ∃ (id : Nat) (f f' : Flow),
      g.flows[id]? = some f ∧ g.passed.flows[id]? = some f' ∧
      (f'.shapes.input, f'.shapes.output) ≠ (f.shapes.input, f.shapes.output) := by
  have hmoves : ∀ {id : Nat} {f : Flow} {shapes : FlowShapes}, g.flows[id]? = some f →
      g.eval id = .ok shapes →
      (g.moves id = true ↔ (shapes.input, shapes.output) ≠ (f.shapes.input, f.shapes.output)) := by
    intro id f shapes hf heval
    rw [moves_eq hf heval, Flow.differs, Bool.or_eq_true, decide_eq_true_iff, decide_eq_true_iff,
      ne_eq (_, _), Prod.mk.injEq, not_and_or]
  rw [List.any_eq_true]
  constructor
  · rintro ⟨id, hid, hmove⟩
    obtain ⟨f, hf⟩ := getElem?_of_lt_size ((mem_order_iff hsound).mp hid)
    obtain ⟨shapes, heval, hpassed⟩ := flow_passed hsound hnone hf
    exact ⟨id, f, _, hf, hpassed, (hmoves hf heval).mp hmove⟩
  · rintro ⟨id, f, f', hf, hf', hne⟩
    obtain ⟨shapes, heval, hpassed⟩ := flow_passed hsound hnone hf
    obtain rfl := Option.some.inj (hf'.symm.trans hpassed)
    have hid : id < g.size := (List.getElem?_eq_some_iff.mp hf).1
    exact ⟨id, (mem_order_iff hsound).mpr hid, (hmoves hf heval).mpr hne⟩

/-- Every flow that a pass leaves stands where a flow of the document stands. -/
theorem exists_of_mem_passed {g : Graph} {f' : Flow} (h : f' ∈ g.passed.flows) :
    ∃ (id : Nat) (f : Flow), g.flows[id]? = some f ∧ g.passed.flows[id]? = some f' := by
  obtain ⟨id, hid⟩ := List.mem_iff_getElem?.mp h
  have hpassed := getElem?_passed g id
  rw [hid] at hpassed
  obtain ⟨f, hf, -⟩ := Option.map_eq_some_iff.mp hpassed.symm
  exact ⟨id, f, hf, hid⟩

/-- What an inference relies on it leaves as it is. -/
theorem Inferable.afterwards {g : Graph} (h : g.Inferable) : (inferAll.run g).state.Inferable := by
  rw [h.run_inferAll.2]
  refine ⟨sound_passed h.sound, h.passes, ?_⟩
  rintro analysis ⟨⟩
  exact congrArg References.analysis (references_eq_of_inputs (sameDocument_passed g).inputs).symm

/-- After an inference that succeeded another one finds nothing to change. -/
theorem Inferable.inferAll_again {g : Graph} (h : g.Inferable) {changed : Bool}
    (hok : (inferAll.run g).result = .ok changed) :
    inferAll.Yields (inferAll.run g).state false (inferAll.run g).state := by
  obtain ⟨hresult, hstate⟩ := h.run_inferAll
  obtain ⟨hnone, -⟩ := passFailure?_eq_none_of_ok (hresult.symm.trans hok)
  obtain ⟨hagain, hsame⟩ := passed_passed h.sound hnone
  obtain ⟨hresult', hstate'⟩ := h.afterwards.run_inferAll
  -- What is left is what the first pass left, with its analysis, which does not matter to a pass.
  generalize (inferAll.run g).state = settled at *
  have hflows : SameFlows g.passed settled := by
    rw [hstate]
    exact ⟨rfl, rfl⟩
  have hconfig : settled.config = g.passed.config := by rw [hstate]
  have hanalysis : settled.analysis = some settled.references.analysis := by
    rw [hflows.references, references_eq_of_inputs (sameDocument_passed g).inputs, hstate]
  have hstays : settled.flowsAfter (settled.unreached settled.stages) = settled.flows := by
    rw [hflows.flows]
    exact (hflows.flows_passed hconfig).trans (congrArg Graph.flows hsame)
  refine ⟨hresult'.trans ((hflows.passResult hconfig).trans hagain), hstate'.trans ?_⟩
  rw [passed, hstays, ← hanalysis]

/-- The first pass of an inference that succeeds finds all shapes, and a second one finds nothing
to change. -/
theorem Inferable.yields_passOf {g g' : Graph} (h : g.Inferable) {changed : Bool}
    (hrun : inferAll.Yields g changed g') :
    (passOf g).Yields { g with analysis := some g.references.analysis } changed g' ∧
      (passOf g).Yields g' false g' := by
  obtain ⟨hok, rfl⟩ := hrun
  obtain ⟨hresult, hstate⟩ := h.run_inferAll
  have hpass := hresult.symm.trans hok
  obtain ⟨hfirst, hleft⟩ := run_passOf h.sound (some g.references.analysis)
  obtain ⟨hagain, hsame⟩ := passed_passed h.sound (passFailure?_eq_none_of_ok hpass).1
  have hsecond := run_passOf (sound_passed h.sound) (some g.references.analysis)
  rw [passOf_passed, hagain, hsame] at hsecond
  rw [hstate]
  exact ⟨⟨hfirst.trans hpass, hleft⟩, hsecond⟩

/-- Two passes settle an inference, in either mode and under any settings: it never runs out of
passes, and if it succeeds, its first pass has found all shapes and a second one finds them
unchanged.  Its answer tells whether some flow has got another input or output than it had before,
whatever had been stored.  An inference after that changes nothing, and all flows are inferred. -/
theorem inferAll_settles {g : Graph} (h : g.Reachable) :
    (∀ passes, (inferAll.run g).result ≠ .error (.notSettled passes)) ∧
    ∀ changed g', inferAll.Yields g changed g' →
      (passOf g).Yields { g with analysis := some g.references.analysis } changed g' ∧
      (passOf g).Yields g' false g' ∧
      (changed = true ↔ ∃ (id : Nat) (f f' : Flow), g.flows[id]? = some f ∧
        g'.flows[id]? = some f' ∧
        (f'.shapes.input, f'.shapes.output) ≠ (f.shapes.input, f.shapes.output)) ∧
      inferAll.Yields g' false g' ∧
      ∀ f ∈ g'.flows, f.state = .dimensionsInferred := by
  have hinferable := h.wellFormed.inferable
  refine ⟨hinferable.ne_notSettled, fun changed g' hrun => ?_⟩
  obtain ⟨hfirst, hsecond⟩ := hinferable.yields_passOf hrun
  obtain ⟨hok, rfl⟩ := hrun
  obtain ⟨hresult, hstate⟩ := hinferable.run_inferAll
  obtain ⟨hnone, rfl⟩ := passFailure?_eq_none_of_ok (hresult.symm.trans hok)
  have hflows : (inferAll.run g).state.flows = g.passed.flows := by rw [hstate]
  refine ⟨hfirst, hsecond, ?_, hinferable.inferAll_again hok, fun f' hf' => ?_⟩
  · rw [hflows]
    exact any_moves_iff hinferable.sound hnone
  · rw [hflows] at hf'
    obtain ⟨id, f, hf, hid⟩ := exists_of_mem_passed hf'
    obtain ⟨shapes, -, hpassed⟩ := flow_passed hinferable.sound hnone hf
    obtain rfl := Option.some.inj (hid.symm.trans hpassed)
    rfl

/-- Nothing is known about the flows of the document at first, so an inference changes them, and a
second one does not. -/
theorem inferAll_settles_diamond :
    (inferAll.run diamond).result = .ok true ∧
      inferAll.Yields (inferAll.run diamond).state false (inferAll.run diamond).state := by
  have hrun : inferAll.Yields diamond true (inferAll.run diamond).state := ⟨rfl, rfl⟩
  obtain ⟨-, -, -, hagain, -⟩ := (inferAll_settles reachable_diamond).2 true _ hrun
  exact ⟨hrun.1, hagain⟩

/-! ## Inferences that fail -/

/-- A pass leaves a flow without shapes, or with those that the document gives it. -/
theorem flow_passed_or {g : Graph} {id : Nat} {f : Flow} (hf : g.flows[id]? = some f) :
    g.passed.flows[id]? = some f.clear ∨
      ∃ shapes, g.eval id = .ok shapes ∧ g.passed.flows[id]? = some (f.withShapes shapes) := by
  rw [getElem?_passed, hf, Option.map_some]
  split
  · exact .inl rfl
  · cases heval : g.eval id with
    | ok shapes => exact .inr ⟨shapes, rfl, congrArg some (concluded_of_ok heval f)⟩
    | error e => exact .inl (congrArg some (concluded_of_error heval f))

/-- A flow to which the document gives no shapes is left without, reached or not. -/
theorem flow_passed_of_error {g : Graph} {id : Nat} {f : Flow} (hf : g.flows[id]? = some f)
    {e : Failure} (heval : g.eval id = .error e) : g.passed.flows[id]? = some f.clear := by
  rcases flow_passed_or hf with hclear | ⟨shapes, hok, -⟩
  · exact hclear
  · rw [heval] at hok
    cases hok

/-- An inference that fails without an overflow stops at a flow. -/
theorem Inferable.exists_firstToFail {g : Graph} (h : g.Inferable) {e : Failure}
    (hresult : (inferAll.run g).result = .error e) (hne : e ≠ .overflow) :
    ∃ failing, g.FirstToFail failing e := by
  rcases failsFirst_of_passFailure? h.sound (h.passFailure?_eq hresult) with
    ⟨hoverflow, -⟩ | hfirst
  · exact absurd hoverflow hne
  · exact hfirst

/-- An inference that fails, in either mode and without an overflow, does so at the first flow in
the order of evaluation that has no shapes.  That flow and all that read it, directly or through
others, are left without shapes; any other flow is left without shapes as well or has exactly those
that the document gives it.  No build is left, and the document is as it was. -/
theorem inferAll_error_leaves {g g' : Graph} (h : g.Reachable) {e : Failure}
    (hfails : inferAll.Fails g e g') (hne : e ≠ .overflow) :
    ∃ failing, g.FirstToFail failing e ∧
      (∀ id f, g.flows[id]? = some f →
        id = failing ∨ Relation.TransGen g.ReadsFlow id failing →
        g'.flows[id]? = some f.clear) ∧
      (∀ id f, g.flows[id]? = some f → g'.flows[id]? = some f.clear ∨
        ∃ shapes, g.eval id = .ok shapes ∧ g'.flows[id]? = some (f.withShapes shapes)) ∧
      (∀ f ∈ g'.flows, f.state.forward? = none ∧ f.state.inputGradients? = none) ∧
      g'.rawInputs = g.rawInputs ∧
      g'.flows.map (fun f => (f.label, f.layers, f.inputs)) =
        g.flows.map fun f => (f.label, f.layers, f.inputs) := by
  have hsound := h.wellFormed.sound
  obtain ⟨hresult, rfl⟩ := hfails
  obtain ⟨failing, hfirst⟩ := h.wellFormed.inferable.exists_firstToFail hresult hne
  rw [h.wellFormed.inferable.run_inferAll.2]
  refine ⟨failing, hfirst, fun id f hf hreads => ?_, fun id f hf => flow_passed_or hf,
    fun f' hf' => ?_, rfl, ?_⟩
  · -- A flow that reads one without shapes has none either.
    obtain ⟨-, -, -, -, heval⟩ := hfirst
    rcases hreads with rfl | hreads
    · exact flow_passed_of_error hf heval
    rw [← reads_references] at hreads
    cases hid : g.eval id with
    | error e' => exact flow_passed_of_error hf hid
    | ok shapes =>
      obtain ⟨found, hfound⟩ := eval_ok_of_transGen hsound hreads hid
      rw [heval] at hfound
      cases hfound
  · obtain ⟨id, f, hf, hid⟩ := exists_of_mem_passed hf'
    rcases flow_passed_or hf with hleft | ⟨shapes, -, hleft⟩
    · obtain rfl := Option.some.inj (hid.symm.trans hleft)
      exact ⟨rfl, rfl⟩
    · obtain rfl := Option.some.inj (hid.symm.trans hleft)
      exact ⟨rfl, rfl⟩
  · have hmap := congrArg (List.map fun f : Flow => (f.label, f.layers, f.inputs))
      (sameDocument_passed g).flows
    rwa [List.map_map, List.map_map] at hmap

/-! ## A document with a flow that has no shapes -/

/-- A document with a layer without output units in its first flow.  The second flow is in order,
and the third one reads both; it still has shapes from before. -/
def uneven : Graph where
  flows := [.fresh "bad" [.raw 0] [.fullyConnected ⟨0, true⟩],
    .fresh "plain" [.raw 0] [],
    (Flow.fresh "join" [.flow 0, .flow 1] []).withShapes
      ⟨[⟨4, 4, 3, 1⟩, ⟨4, 4, 3, 1⟩], [], ⟨4, 4, 6, 1⟩, ⟨4, 4, 6, 1⟩⟩]
  rawInputs := [⟨4, 4, 3, 1⟩]
  config := .default
  analysis := some ⟨[0, 1], [2], [0, 1, 2], [0, 0, 1]⟩

theorem sound_uneven : Sound 1 uneven.flows := sound_of_earlier (by decide)

theorem reachable_uneven : uneven.Reachable := by
  have hsound : Sound uneven.rawInputs.length uneven.flows := sound_uneven
  refine hsound.reachable_verified fun f hf => ?_
  simp only [uneven, List.mem_cons, List.not_mem_nil, or_false] at hf
  rcases hf with rfl | rfl | rfl
  · exact .fresh _ _ _
  · exact .fresh _ _ _
  · -- The shapes are those that an inference finds for sources of equal shapes.
    exact (Flow.Reachable.fresh _ _ _).step
      (Flow.step_infer (.fresh "join" [.flow 0, .flow 1] []) fun _ => .ok ⟨4, 4, 3, 1⟩)

/-- The failure of the first flow of the document. -/
def unevenFailure : Failure := .shape "bad/FullyConnected" .noOutputUnits

theorem firstToFail_uneven : uneven.FirstToFail 0 unevenFailure :=
  ⟨[], [1, 2], rfl, by simp, rfl⟩

/-- The flow that reads the one without shapes loses those that it still had. -/
theorem inferAll_error_leaves_uneven :
    (inferAll.run uneven).result = .error unevenFailure ∧
      (inferAll.run uneven).state.flows[2]? = some (.fresh "join" [.flow 0, .flow 1] []) := by
  have hfails : inferAll.Fails uneven unevenFailure (inferAll.run uneven).state := ⟨rfl, rfl⟩
  obtain ⟨failing, hfirst, hcleared, -⟩ :=
    inferAll_error_leaves reachable_uneven hfails (by decide)
  obtain rfl := hfirst.unique firstToFail_uneven
  have hreads : uneven.ReadsFlow 2 0 := ⟨_, rfl, by decide⟩
  exact ⟨hfails.1, hcleared 2 _ rfl (.inr (.single hreads))⟩

end LayerFlow.Graph
