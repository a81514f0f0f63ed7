/-
LayerFlow.Proofs.Graph.Freshness

Which shapes a forward build of a whole graph relies on.  A flow is built with the shapes that its
sources had when it was inferred.  Edits of the document forget all builds, and an inference of the
whole graph finds all shapes anew, so these are the shapes that the sources have now, with one
exception: a flow that is inferred alone may get another output, and the flows that read it are not
told.

Main statements: `fresh_after`, what every history keeps, and `buildForwardAll_fresh`.
-/
import LayerFlow.Proofs.Graph.History

namespace LayerFlow.Graph

open Op

/-! ## Shapes of sources -/

/-- A flow has the shapes that its sources have now; some of the flows that it reads may be
excused. -/
def UpToDate (g : Graph) (excused : Nat → Prop) (f : Flow) : Prop :=
  List.Forall₂ (fun s shape => g.resolve s = .ok shape ∨
      ∃ source, s = .flow source ∧ excused source)
    f.inputs f.shapes.sources

/-- Every flow that is inferred is up to date, but for what is excused. -/
def Fresh (g : Graph) (excused : Nat → Nat → Prop) : Prop :=
  ∀ id f, g.flows[id]? = some f → f.state ≠ .unbuilt → g.UpToDate (excused id) f

/-- The output shape of a flow as the graph knows it. -/
def outputOf? (g : Graph) (id : Nat) : Option Shape := g.flows[id]?.map fun f => f.shapes.output

theorem resolve_flow_congr {g g' : Graph} {id : Nat} (h : g'.outputOf? id = g.outputOf? id) :
    g'.resolve (.flow id) = g.resolve (.flow id) := by
  simp only [outputOf?] at h
  simp only [resolve]
  cases hf : g.flows[id]? with
  | none =>
    rw [hf, Option.map_none, Option.map_eq_none_iff] at h
    rw [h]
  | some f =>
    rw [hf, Option.map_some, Option.map_eq_some_iff] at h
    obtain ⟨f', hf', houtput⟩ := h
    rw [hf']
    exact congrArg Except.ok houtput

/-- Work that keeps the shapes keeps what the graph knows of the sources. -/
theorem resolve_of_worked {g g' : Graph} (h : Flowwise Flow.Worked g g') :
    g'.resolve = g.resolve := by
  funext s
  cases s with
  | raw slot => simp only [resolve, h.rawInputs]
  | flow id =>
    refine resolve_flow_congr ?_
    rw [outputOf?, outputOf?]
    cases hf : g.flows[id]? with
    | none =>
      have hnone : g'.flows[id]? = none := by
        rw [List.getElem?_eq_none_iff] at hf ⊢
        exact h.size.trans_le hf
      rw [hnone, Option.map_none]
    | some f =>
      obtain ⟨f', hf', hworked⟩ := h.flows hf
      rw [hf', Option.map_some, Option.map_some, hworked.shapes]

theorem UpToDate.of_worked {g g' : Graph} {excused excused' : Nat → Prop} {f f' : Flow}
    (h : g.UpToDate excused f) (hgraph : Flowwise Flow.Worked g g') (hf : Flow.Worked f f')
    (hmore : ∀ source, excused source → excused' source) : g'.UpToDate excused' f' := by
  rw [UpToDate, hf.inputs, hf.shapes, resolve_of_worked hgraph]
  refine List.Forall₂.imp (fun s shape => Or.imp_right ?_) h
  rintro ⟨source, hs, hsource⟩
  exact ⟨source, hs, hmore source hsource⟩

theorem Fresh.of_worked {g g' : Graph} {excused excused' : Nat → Nat → Prop} (h : g.Fresh excused)
    (hgraph : Flowwise Flow.Worked g g')
    (hmore : ∀ reader source, excused reader source → excused' reader source) :
    g'.Fresh excused' := by
  intro id f' hf' hbuilt
  obtain ⟨f, hf, hworked⟩ := hgraph.before hf'
  exact (h id f hf fun hunbuilt => hbuilt (hworked.unbuilt hunbuilt)).of_worked hgraph hworked
    (hmore id)

/-- A flow that was inferred from the shapes of its sources is up to date. -/
theorem upToDate_of_evaluate {g : Graph} {excused : Nat → Prop} {f : Flow} {shapes : FlowShapes}
    {resolve : Flow.Resolver} (h : f.evaluate resolve = .ok shapes)
    (hresolve : ∀ s ∈ f.inputs, g.resolve s = resolve s) :
    g.UpToDate excused (f.withShapes shapes) := by
  have hsources := (Flow.evaluate_eq_ok_iff.mp h).2.1
  rw [← Traversal.mapM_congr hresolve] at hsources
  exact List.Forall₂.imp (fun _ _ => .inl) (Traversal.mapM_eq_ok_iff.mp hsources)

/-! ## After an inference of the whole graph -/

/-- A flow that a pass reaches reads flows that the pass has reached before. -/
theorem not_mem_unreached_of_reads {g : Graph} (hsound : Sound g.rawInputs.length g.flows)
    {id source : Nat} (hid : id < g.size) (hreached : id ∉ g.unreached g.stages)
    (hread : g.references.Reads id source) : source ∉ g.unreached g.stages := by
  have hstaged := staged_stages hsound
  cases hfailure : g.passFailure? with
  | none =>
    rw [passFailure?_eq] at hfailure
    rw [(groupFailure?_eq_none (eval_ok_of_groupFailure? hfailure)).2]
    exact List.not_mem_nil
  | some e =>
    rw [passFailure?_eq] at hfailure
    obtain ⟨done, ids, later, hstages, -, -, hunreached⟩ := groupFailure?_eq_some hfailure
    rw [hunreached] at hreached ⊢
    have horder : g.references.order = (done ++ [ids]).flatten ++ later.flatten := by
      rw [← hstaged.flatten, hstages, ← List.flatten_append, List.append_assoc,
        List.singleton_append]
    have hdone : id ∈ (done ++ [ids]).flatten := by
      rw [← mem_order_iff hsound, horder, List.mem_append] at hid
      exact hid.resolve_right hreached
    -- The group of the reader stands behind that of what it reads.
    obtain ⟨group, hgroup, hmem⟩ := List.mem_flatten.mp hdone
    obtain ⟨before, between, hsplit⟩ := List.append_of_mem hgroup
    have hwhole : g.stages = before ++ group :: (between ++ later) := by
      rw [hstages, ← List.singleton_append, ← List.append_assoc, hsplit, List.append_assoc,
        List.cons_append]
    have hsource := hstaged.reads before group _ hwhole id hmem source hread
    have hnodup := References.order_nodup g.references
    rw [horder, List.nodup_append] at hnodup
    intro hlater
    refine hnodup.2.2 source ?_ source hlater rfl
    rw [hsplit, List.flatten_append]
    exact List.mem_append_left _ hsource

/-- After a pass every flow that has shapes is up to date, whether the pass went through or not. -/
theorem fresh_passed {g : Graph} (hsound : Sound g.rawInputs.length g.flows)
    (excused : Nat → Nat → Prop) : g.passed.Fresh excused := by
  intro id f' hf' hbuilt
  rw [getElem?_passed] at hf'
  obtain ⟨f, hf, hleft⟩ := Option.map_eq_some_iff.mp hf'
  have hid : id < g.size := (List.getElem?_eq_some_iff.mp hf).1
  split at hleft
  · subst hleft
    exact absurd rfl hbuilt
  next hreached =>
  cases heval : g.eval id with
  | error e =>
    rw [concluded_of_error heval] at hleft
    subst hleft
    exact absurd rfl hbuilt
  | ok shapes =>
    rw [concluded_of_ok heval] at hleft
    subst hleft
    -- What the flow reads was reached and has its evaluated shapes.
    have hsources : ∀ source, g.references.Reads id source → Holds g g.passed source := by
      intro source hread
      obtain ⟨found, hfound⟩ := eval_ok_of_reads hsound hread heval
      have hlt := hsound.inRange_references id source hread
      rw [length_references] at hlt
      obtain ⟨old, hold⟩ := getElem?_of_lt_size hlt
      have hsource := not_mem_unreached_of_reads hsound hid hreached hread
      refine ⟨old.withShapes found, ?_, old, found, hold, hfound, rfl⟩
      rw [getElem?_passed, hold, Option.map_some, if_neg hsource, concluded_of_ok hfound]
    rw [eval_eq hsound hf] at heval
    exact upToDate_of_evaluate (Flow.evaluate_of_denote heval) fun s hs =>
      resolve_eq_sourceShape (sameDocument_passed g) hf hsources hs

theorem Inferable.fresh_inferAll {g : Graph} (h : g.Inferable) (excused : Nat → Nat → Prop) :
    (inferAll.run g).state.Fresh excused := by
  rw [h.run_inferAll.2]
  exact fresh_passed h.sound excused

/-! ## Histories -/

/-- Whether a use of a graph infers a flow or discards what was inferred of it. -/
def Use.Renews (g : Graph) (reader : Nat) : Use → Prop
  | .edit e _ => e.run.Yields g () (e.run.run g).state
  | .inferAll => True
  | .inferFlow id => id = reader
  | @Use.buildAll _ _ _ _ => True
  | _ => False

/-- After some uses of a graph, a flow has got another output because it was inferred alone, and a
reader of it has not been renewed since. -/
inductive Overtaken (start : Graph) (reader source : Nat) : List Use → Prop
  | now {uses : List Use} (h : ((Use.inferFlow source).run (start.after uses)).outputOf? source ≠
        (start.after uses).outputOf? source) :
      Overtaken start reader source (uses ++ [.inferFlow source])
  | later {uses : List Use} {u : Use} (h : Overtaken start reader source uses)
      (hu : ¬ u.Renews (start.after uses) reader) : Overtaken start reader source (uses ++ [u])

/-- A flow that is inferred alone leaves the others as they were. -/
theorem getElem?_inferFlow (g : Graph) (id other : Nat) :
    ((Use.inferFlow id).run g).flows[other]? = g.flows[other]?.map fun f =>
      if id = other then ((Flow.infer g.resolve).run f).state else f := by
  rw [run_inferFlow, List.getElem?_modify]
  cases g.flows[other]? <;> simp

theorem resolve_inferFlow {g : Graph} {id : Nat} {s : Source} (h : s ≠ .flow id) :
    ((Use.inferFlow id).run g).resolve s = g.resolve s := by
  cases s with
  | raw slot => simp only [resolve, run_inferFlow]
  | flow source =>
    have hne : id ≠ source := by
      rintro rfl
      exact h rfl
    refine resolve_flow_congr ?_
    rw [outputOf?, outputOf?, getElem?_inferFlow]
    simp [hne]

/-- An inference of one flow brings that flow up to date, and overtakes the flows that read it. -/
theorem Fresh.inferFlow {start : Graph} {uses : List Use} {id : Nat}
    (hsound : Sound (start.after uses).rawInputs.length (start.after uses).flows)
    (h : (start.after uses).Fresh fun reader source => Overtaken start reader source uses) :
    ((Use.inferFlow id).run (start.after uses)).Fresh fun reader source =>
      Overtaken start reader source (uses ++ [.inferFlow id]) := by
  intro reader f' hf' hbuilt
  rw [getElem?_inferFlow] at hf'
  obtain ⟨f, hf, hleft⟩ := Option.map_eq_some_iff.mp hf'
  by_cases hid : id = reader
  · subst hid
    rw [if_pos rfl] at hleft
    cases hevaluate : f.evaluate (start.after uses).resolve with
    | error e =>
      rw [(Flow.infer_error hevaluate).2] at hleft
      subst hleft
      exact absurd rfl hbuilt
    | ok shapes =>
      rw [(Flow.infer_ok hevaluate).2] at hleft
      subst hleft
      -- No flow reads itself, so all that this flow reads is as it was.
      refine upToDate_of_evaluate hevaluate fun s hs => resolve_inferFlow ?_
      rintro rfl
      exact hsound.acyclic id (.single (reads_iff.mpr ⟨f, hf, hs⟩))
  · rw [if_neg hid] at hleft
    subst hleft
    refine List.Forall₂.imp (fun s shape hpair => ?_) (h reader f hf hbuilt)
    rcases hpair with hresolve | ⟨source, hs, hovertaken⟩
    · by_cases hs : s = .flow id
      · subst hs
        by_cases houtput : ((Use.inferFlow id).run (start.after uses)).outputOf? id =
            (start.after uses).outputOf? id
        · exact .inl ((resolve_flow_congr houtput).trans hresolve)
        · exact .inr ⟨id, rfl, .now houtput⟩
      · exact .inl ((resolve_inferFlow hs).trans hresolve)
    · exact .inr ⟨source, hs, hovertaken.later hid⟩

/-- Whatever is done with a graph, a flow that is inferred has the shapes that its sources have now,
unless a source overtook it. -/
theorem fresh_after {start : Graph} (h : start.Begins) (uses : List Use) :
    (start.after uses).Fresh fun reader source => Overtaken start reader source uses := by
  induction uses using List.reverseRecOn with
  | nil => exact fun id f hf hbuilt => absurd (h.unbuilt f (List.mem_of_getElem? hf)) hbuilt
  | append_singleton uses u ih =>
    have hwell := (h.reachable.after uses).wellFormed
    rw [after_append, after_singleton]
    -- Without a renewal flows that were overtaken stay so.
    have hkept : (∀ reader, ¬ u.Renews (start.after uses) reader) → ∀ reader source,
        Overtaken start reader source uses → Overtaken start reader source (uses ++ [u]) :=
      fun hu reader source hovertaken => hovertaken.later (hu reader)
    cases u with
    | edit e he =>
      rcases Use.edit_cases e he (start.after uses) with ⟨⟨err, hrefused⟩, hsame⟩ | ⟨-, hunbuilt⟩
      · rw [hsame]
        refine ih.of_worked (.refl _) (hkept fun reader haccepted => ?_)
        exact haccepted.not_fails hrefused
      · exact fun id f hf hbuilt => absurd (hunbuilt f (List.mem_of_getElem? hf)) hbuilt
    | inferAll => exact hwell.inferable.fresh_inferAll _
    | inferFlow id => exact ih.inferFlow hwell.sound
    | buildAll b raw =>
      exact (hwell.inferable.fresh_inferAll _).of_worked
        (flowwise_inferred_buildAll Flow.worked_buildForward Flow.worked_buildBackward _ b raw)
        fun _ _ hexcused => hexcused
    | setConfig config => exact ih.of_worked (Use.worked id id _) (hkept fun _ => id)
    | verify => exact ih.of_worked (Use.worked id id _) (hkept fun _ => id)
    | buildForwardAll b raw => exact ih.of_worked (Use.worked id id _) (hkept fun _ => id)
    | buildBackwardAll b => exact ih.of_worked (Use.worked id id _) (hkept fun _ => id)
    | work other u hplain => exact ih.of_worked (Use.worked id id _) (hkept fun _ => id)
    | reread config => exact ih.of_worked (Use.worked id id _) (hkept fun _ => id)

/-! ## Builds -/

section

variable {β : Type} [Backend β]

/-- Whatever was done with a graph, a forward build of it that succeeds, on any backend, was made
with the shapes that the sources of the flows have now, but for sources that overtook their
readers: a flow that was inferred alone and got another output, with no inference of the reader and
no edit of the document since. -/
theorem buildForwardAll_fresh {start : Graph} (hstart : start.Begins) (uses : List Use)
    {b b' : β} {raw outputs : List Handle} {g' : Graph}
    (hrun : (buildForwardAll raw).Yields (start.after uses, b) outputs (g', b')) :
    ∀ reader f, g'.flows[reader]? = some f →
      List.Forall₂ (fun s shape => g'.resolve s = .ok shape ∨
          ∃ source, s = .flow source ∧ Overtaken start reader source uses)
        f.inputs f.shapes.sources := by
  intro reader f' hf'
  have hwell := (hstart.reachable.after uses).wellFormed
  have hworked : Flowwise Flow.Worked (start.after uses) g' := by
    have hkept : FlowwiseBeside Flow.Worked (start.after uses)
        ((buildForwardAll raw).run (start.after uses, b)).state :=
      flowwise_buildForwardAll Flow.worked_buildForward raw _ (.refl _)
    rwa [hrun.2] at hkept
  obtain ⟨f, hf, hkept⟩ := hworked.before hf'
  have hbuilt : f.state ≠ .unbuilt := by
    obtain ⟨_, _, _, _, _, hbuild, -⟩ := hwell.built_of_yields hrun hf
    rw [(Flow.checkForward_of_yields_buildForward hbuild).1]
    simp
  have hfresh := fresh_after hstart uses reader f hf hbuilt
  exact hfresh.of_worked hworked hkept fun _ hovertaken => hovertaken

end

/-! ## A flow that overtakes its reader -/

/-- A document with a flow that hands its input on to another one. -/
def relay : Graph where
  flows := [.fresh "first" [.raw 0] [], .fresh "second" [.flow 0] []]
  rawInputs := [⟨4, 4, 3, 1⟩]
  config := .default
  analysis := none

/-- The first flow gets a layer and is inferred again, but the second one is not. -/
def relayUses : List Use :=
  [.verify, .inferAll, .work 0 (.pushLayer (.fullyConnected ⟨10, true⟩)) trivial, .inferFlow 0,
    .verify]

/-- The flows of the document after that, with all that is known of them. -/
def overtaken : Graph where
  flows := [(Flow.fresh "first" [.raw 0] [.fullyConnected ⟨10, true⟩]).withShapes
      ⟨[⟨4, 4, 3, 1⟩], [⟨4, 4, 3, 1⟩], ⟨4, 4, 3, 1⟩, ⟨1, 1, 10, 1⟩⟩,
    (Flow.fresh "second" [.flow 0] []).withShapes
      ⟨[⟨4, 4, 3, 1⟩], [], ⟨4, 4, 3, 1⟩, ⟨4, 4, 3, 1⟩⟩]
  rawInputs := [⟨4, 4, 3, 1⟩]
  config := .default
  analysis := some ⟨[0], [1], [0, 1], [0, 1]⟩

theorem sound_relay : Sound 1 relay.flows := sound_of_earlier (by decide)

theorem begins_relay : relay.Begins := by
  have hread : Graph.ofRecord ⟨1, relay.rawInputs, relay.flows⟩ .default = .ok relay := by
    show (checkStructure 1 relay.flows >>= fun _ => _) = _
    rw [checkStructure_eq_ok_iff_sound.mpr sound_relay]
    rfl
  refine .ofRecord (fun f hf => ?_) hread
  simp only [relay, List.mem_cons, List.not_mem_nil, or_false] at hf
  rcases hf with rfl | rfl
  · exact ⟨.fresh _ _ _, rfl⟩
  · exact ⟨.fresh _ _ _, rfl⟩

theorem run_verify {g : Graph} (h : Sound g.rawInputs.length g.flows) :
    Use.verify.run g = { g with analysis := some g.references.analysis } :=
  h.yields_verify.2

theorem after_relayUses : relay.after relayUses = overtaken := by
  have hrelay : Sound relay.rawInputs.length relay.flows := sound_relay
  have hovertaken : Sound overtaken.rawInputs.length overtaken.flows := sound_relay.congr rfl
  show Use.verify.run ((Use.inferFlow 0).run ((Use.work 0 _ _).run (Use.inferAll.run
    (Use.verify.run relay)))) = overtaken
  rw [run_verify hrelay]
  exact run_verify (g := { overtaken with analysis := none }) hovertaken

/-- The nodes of a backend that holds the raw input. -/
def relayTape : Tape := ⟨#[.readInput 0], none⟩

/-- The document is built, although one of its flows was overtaken. -/
theorem yields_overtaken :
    (buildForwardAll [⟨0⟩]).Yields (relay.after relayUses, relayTape) [⟨1⟩, ⟨1⟩]
      ((buildForwardAll [⟨0⟩]).run (overtaken, relayTape)).state := by
  rw [after_relayUses]
  exact ⟨rfl, rfl⟩

/-- A forward build may rely on shapes that the sources do not have any more: here the second flow
is built for the input that it had before the first one got a layer. -/
theorem buildForwardAll_not_fresh :
    ¬ ∀ (start : Graph) (uses : List Use) (t t' : Tape) (raw outputs : List Handle) (g' : Graph),
      start.Begins →
      (buildForwardAll raw).Yields (start.after uses, t) outputs (g', t') →
      ∀ f ∈ g'.flows, List.Forall₂ (fun s shape => g'.resolve s = .ok shape) f.inputs
        f.shapes.sources := by
  intro hclaim
  have hfresh := hclaim relay relayUses relayTape _ _ _ _ begins_relay yields_overtaken
  have hsecond := hfresh _ (List.mem_of_getElem? (i := 1) rfl)
  cases hsecond with
  | cons hresolve _ =>
    revert hresolve
    decide

/-- The shape that the second flow is built for is not that of the first one, which overtook it. -/
theorem buildForwardAll_fresh_relay :
    let g := ((buildForwardAll [⟨0⟩]).run (overtaken, relayTape)).state.1
    g.resolve (.flow 0) = .ok ⟨1, 1, 10, 1⟩ ∧
      g.flows[1]?.map (fun f => f.shapes.sources) = some [⟨4, 4, 3, 1⟩] ∧
      Overtaken relay 1 0 relayUses := by
  intro g
  have hfresh := buildForwardAll_fresh begins_relay relayUses yields_overtaken 1 _ rfl
  refine ⟨rfl, rfl, ?_⟩
  cases hfresh with
  | cons hsource _ =>
    rcases hsource with hresolve | ⟨source, hsource, hovertaken⟩
    · cases hresolve
    · cases hsource
      exact hovertaken

end LayerFlow.Graph
