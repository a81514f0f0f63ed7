/-
LayerFlow.Proofs.Graph.Progress

Builds of a whole graph on the tape go through.  After an inference every flow of a document with
known raw inputs waits with known shapes.  The forward walk meets every flow after those it reads,
so the handles of its sources are there; the backward walk meets flows that were built on nodes
that the tape still has, and hands out gradients that the tape still has.  So no request is
refused, and all that can stop a build is a fusion whose selection matrix is too large.

Main statement: `buildAll_goesThrough`.
-/
import LayerFlow.Proofs.Flow.Progress
import LayerFlow.Proofs.Graph.Recording
import LayerFlow.Proofs.Graph.ShapeConsistency

namespace LayerFlow.Graph

open Op Traversal

/-! ## Graphs that can be built -/

/-- A document whose raw inputs have known shapes and whose layer sizes fit a signed extent. -/
structure Known (g : Graph) : Prop where
  rawInputs : ∀ s ∈ g.rawInputs, s.Known
  layers : ∀ f ∈ g.flows, ∀ l ∈ f.layers, l.Bounded

/-- In such a document all shapes that flows read are known. -/
theorem Known.sources_eval {g : Graph} (h : g.Known) {id : Nat} {shapes : FlowShapes}
    (heval : g.eval id = .ok shapes) : ∀ s ∈ shapes.sources, s.Known := by
  refine (forall_evalWithin h.rawInputs (fun f hf shapes hfits hsources => ?_) heval).1
  have hne : shapes.sources ≠ [] := by
    intro hnil
    have hlength := hfits.length_sources
    rw [hnil] at hlength
    exact hfits.inputs_ne_nil (List.eq_nil_of_length_eq_zero hlength.symm)
  exact (Flow.known_chain (h.layers f hf) (Shape.known_combine hne hsources hfits.combine)
    hfits.chain).2

/-- An inference leaves every flow of such a document ready. -/
theorem Known.ready {g g' : Graph} (h : g.Known) (hsound : Sound g.rawInputs.length g.flows)
    (hsettled : Settled g g') : ∀ f ∈ g'.flows, f.Ready := by
  intro f' hf'
  obtain ⟨id, hid⟩ := List.mem_iff_getElem?.mp hf'
  have hlt : id < g.flows.length := hsettled.1.length ▸ (List.getElem?_eq_some_iff.mp hid).1
  obtain ⟨_, hstored, f, shapes, hf, heval, rfl⟩ := hsettled.2 id hlt
  rw [hid] at hstored
  cases hstored
  have hdenote := heval
  rw [eval_eq hsound hf] at hdenote
  have hfits := Flow.fits_of_evaluate (Flow.evaluate_of_denote hdenote)
  exact {
    state := rfl
    fits := ⟨hfits.inputs_ne_nil, hfits.length_sources, hfits.combine, hfits.chain⟩
    known := h.sources_eval heval
    bounded := h.layers f (List.mem_of_getElem? hf) }

/-- Every selection matrix that the flows ask for fits. -/
def FusionsFit (g : Graph) : Prop :=
  ∀ f ∈ g.flows, Flow.FusionFits g.config.channelAlignment f.shapes

instance (g : Graph) : Decidable g.FusionsFit := inferInstanceAs (Decidable (∀ _ ∈ _, _))

/-- There is a handle on the tape for every raw input. -/
def Handled (g : Graph) (raw : List Handle) (t : Tape) : Prop :=
  ∀ slot < g.rawInputs.length, ∃ h, raw[slot]? = some h ∧ t.Has h

/-! ## Work on one flow -/

theorem ends_onFlow {α β : Type} {id : Nat} {x : Op Failure (Flow × β) α} {g : Graph} {b : β}
    {f : Flow} {Q : α → Graph × β → Prop} {E : Failure → Prop} (hf : g.flows[id]? = some f)
    (h : x.Ends (f, b) (fun a s => Q a (g.setFlow id s.1, s.2)) E) :
    (onFlow id x).Ends (g, b) Q E := by
  refine ends_get_bind ?_
  exact (yields_ofExcept.mpr ⟨flow_eq_ok_iff.mpr hf, rfl⟩).ends_bind (ends_zoom h)

/-- A flow was built forward, and its nodes are on the tape. -/
def BuiltOn (g : Graph) (t : Tape) (id : Nat) (output : Handle) : Prop :=
  ∃ f forward, g.flows[id]? = some f ∧ f.state = .forwardBuilt forward ∧
    forward.output = output ∧ f.OnTape t forward

/-- Work on another flow does not touch the nodes. -/
theorem BuiltOn.setFlow {g : Graph} {t t' : Tape} {id other : Nat} {output : Handle}
    (h : g.BuiltOn t id output) (hne : other ≠ id) (hgoes : t.GoesOn t') (f' : Flow) :
    (g.setFlow other f').BuiltOn t' id output := by
  obtain ⟨f, forward, hf, hstate, houtput, hnodes⟩ := h
  refine ⟨f, forward, ?_, hstate, houtput, hnodes.goesOn hgoes⟩
  show (g.flows.set other f')[id]? = some f
  rw [List.getElem?_set_ne hne, hf]

/-! ## Forward -/

/-- A forward build of a graph half-way: the flows in `done` are built on nodes of the tape, and
those in `rest` are as they were at the start. -/
structure Halfway (start : Graph) (raw : List Handle) (done rest : List Nat)
    (outputs : List (Option Handle)) (g : Graph) (t : Tape) : Prop where
  order : start.references.order = done ++ rest
  opened : t.rejects = none
  handled : start.Handled raw t
  size : g.size = start.size
  length_outputs : outputs.length = start.size
  waiting : ∀ id ∈ rest, g.flows[id]? = start.flows[id]?
  built : ∀ id ∈ done, ∃ output, outputs[id]? = some (some output) ∧ g.BuiltOn t id output

namespace Halfway

variable {start g : Graph} {raw : List Handle} {done rest : List Nat} {id : Nat}
  {outputs : List (Option Handle)} {t t' : Tape}

/-- The sources of the next flow have their handles. -/
theorem sources (h : Halfway start raw done (id :: rest) outputs g t)
    (hsound : Sound start.rawInputs.length start.flows) {f : Flow}
    (hf : start.flows[id]? = some f) :
    ∀ s ∈ f.inputs, ∃ handle, Flow.sourceHandle raw outputs s = .ok handle ∧ t.Has handle := by
  intro s hs
  have hexists := hsound.sources f (List.mem_of_getElem? hf) s hs
  cases s with
  | raw slot =>
    obtain ⟨handle, hslot, hhas⟩ := h.handled slot hexists
    exact ⟨handle, Flow.sourceHandle_raw_eq_ok_iff.mpr hslot, hhas⟩
  | flow other =>
    have hread : start.references.Reads id other := reads_iff.mpr ⟨f, hf, hs⟩
    have hdone := References.mem_done_of_reads hsound.acyclic_references
      hsound.inRange_references h.order hread
    obtain ⟨output, houtput, _, forward, -, -, rfl, hnodes⟩ := h.built other hdone
    exact ⟨_, Flow.sourceHandle_flow_eq_ok_iff.mpr houtput, hnodes.output⟩

/-- The next flow joins those that are built. -/
theorem next (h : Halfway start raw done (id :: rest) outputs g t) (hgoes : t.GoesOn t')
    {f' : Flow} {forward : ForwardNodes} (hid : id < start.size)
    (hstate : f'.state = .forwardBuilt forward) (hnodes : f'.OnTape t' forward) :
    Halfway start raw (done ++ [id]) rest (outputs.set id (some forward.output))
      (g.setFlow id f') t' := by
  -- No flow stands twice in the order.
  have honce := References.order_nodup start.references
  rw [h.order, List.nodup_append] at honce
  obtain ⟨-, hlater, hdisjoint⟩ := honce
  refine {
    order := by rw [h.order, List.append_assoc]; rfl
    opened := hgoes.rejects.trans h.opened
    handled := fun slot hslot => ?_
    size := (List.length_set ..).trans h.size
    length_outputs := (List.length_set ..).trans h.length_outputs
    waiting := fun other hother => ?_
    built := fun other hother => ?_ }
  · obtain ⟨handle, hraw, hhas⟩ := h.handled slot hslot
    exact ⟨handle, hraw, hgoes.has hhas⟩
  · have hne : id ≠ other := fun heq => (List.nodup_cons.mp hlater).1 (heq ▸ hother)
    show (g.flows.set id f')[other]? = _
    rw [List.getElem?_set_ne hne]
    exact h.waiting other (List.mem_cons_of_mem id hother)
  · rcases List.mem_append.mp hother with hother | hother
    · have hne : id ≠ other := (hdisjoint other hother id List.mem_cons_self).symm
      obtain ⟨output, houtput, hbuilt⟩ := h.built other hother
      exact ⟨output, by rwa [List.getElem?_set_ne hne], hbuilt.setFlow hne hgoes f'⟩
    · obtain rfl := List.mem_singleton.mp hother
      refine ⟨forward.output, ?_, f', forward, ?_, hstate, rfl, hnodes⟩
      · exact List.getElem?_set_self (h.length_outputs.symm ▸ hid)
      · exact List.getElem?_set_self (lt_of_lt_of_eq hid h.size.symm)

end Halfway

/-- The walk goes on to the end, unless a selection matrix is too large. -/
theorem ends_buildForwardIn {start g : Graph} {raw : List Handle} {done rest : List Nat}
    {outputs : List (Option Handle)} {t : Tape} {alignment : Nat}
    (hsound : Sound start.rawInputs.length start.flows) (hready : ∀ f ∈ start.flows, f.Ready)
    (halign : 0 < alignment) (h : Halfway start raw done rest outputs g t) :
    (buildForwardIn raw alignment rest outputs).Ends (g, t)
      (fun table s => Halfway start raw start.references.order [] table s.1 s.2)
      fun e => e = .overflow ∧
        ∃ f ∈ start.flows, ¬ Flow.FusionFits alignment f.shapes := by
  induction rest generalizing done outputs g t with
  | nil =>
    have horder := h.order
    rw [List.append_nil] at horder
    exact ends_pure (horder ▸ h)
  | cons id rest ih =>
    have hmem : id ∈ start.references.order := by
      rw [h.order]
      exact List.mem_append_right _ List.mem_cons_self
    have hid := (mem_order_iff hsound).mp hmem
    have hf : start.flows[id]? = some start.flows[id] := List.getElem?_eq_getElem hid
    have hflow := hready _ (List.getElem_mem hid)
    have hbuild := Flow.ends_buildForward hflow halign h.opened (h.sources hsound hf)
    refine ends_bind (R := fun output s =>
      Halfway start raw (done ++ [id]) rest (outputs.set id (some output)) s.1 s.2)
      (ends_onFlow ((h.waiting id List.mem_cons_self).trans hf) ?_) fun output s hs => ih hs
    rcases hbuild with ⟨output, s, hyields, hgoes, -, forward, hstate, rfl, hnodes⟩ |
      ⟨e, s, hfails, rfl, hover⟩
    · exact ends_of_yields hyields (h.next hgoes hid hstate hnodes)
    · exact ends_of_fails hfails ⟨rfl, _, List.getElem_mem hid, hover⟩

/-- A table in which every place is filled has no gaps. -/
theorem exists_completeOutputs {table : List (Option Handle)}
    (h : ∀ id < table.length, ∃ output, table[id]? = some (some output)) :
    ∃ outputs, completeOutputs table = .ok outputs := by
  refine ⟨table.filterMap fun entry => entry, completeOutputs_eq_ok_iff.mpr ?_⟩
  have hall : ∀ entry ∈ table, ∃ output, entry = some output := by
    intro entry hentry
    obtain ⟨id, hid⟩ := List.mem_iff_getElem?.mp hentry
    obtain ⟨output, houtput⟩ := h id (List.getElem?_eq_some_iff.mp hid).1
    rw [hid] at houtput
    exact ⟨output, Option.some.inj houtput⟩
  clear h
  induction table with
  | nil => rfl
  | cons entry rest ih =>
    rw [List.forall_mem_cons] at hall
    obtain ⟨⟨output, rfl⟩, hrest⟩ := hall
    rw [List.filterMap_cons, List.map_cons, ← ih hrest]

/-- A graph whose flows are ready is built forward on nodes of the tape. -/
theorem WellFormed.ends_buildForwardAll {g : Graph} (h : g.WellFormed)
    (hready : ∀ f ∈ g.flows, f.Ready) {raw : List Handle} {t : Tape} (hopen : t.rejects = none)
    (hraw : g.Handled raw t) :
    (Graph.buildForwardAll raw).Ends (g, t)
      (fun _ s => ∀ id < s.1.size, ∃ output, s.1.BuiltOn s.2 id output)
      fun e => e = .overflow ∧ ¬ g.FusionsFit := by
  have halign : 0 < g.config.channelAlignment := by
    refine Nat.pos_of_ne_zero fun hzero => ?_
    have hpower := h.config.2.1
    rw [hzero] at hpower
    cases hpower
  refine Yields.ends_bind (yields_zoom.mpr ⟨_, h.yields_ensureVerified, rfl⟩) ?_
  refine ends_get_bind ?_
  have hbegin : Halfway g raw [] g.references.order (List.replicate g.size none)
      { g with analysis := some g.references.analysis } t := {
    order := rfl
    opened := hopen
    handled := hraw
    size := rfl
    length_outputs := List.length_replicate
    waiting := fun _ _ => rfl
    built := by simp }
  rcases ends_buildForwardIn h.sound hready halign hbegin with ⟨table, s, hwalk, hend⟩ |
    ⟨e, s, hfails, rfl, f, hf, hover⟩
  · have hdone : ∀ id < g.size,
        ∃ output, table[id]? = some (some output) ∧ s.1.BuiltOn s.2 id output :=
      fun id hid => hend.built id ((mem_order_iff h.sound).mpr hid)
    have htable : ∀ id < table.length, ∃ output, table[id]? = some (some output) := by
      intro id hid
      obtain ⟨output, houtput, -⟩ := hdone id (hend.length_outputs ▸ hid)
      exact ⟨output, houtput⟩
    obtain ⟨outputs, houtputs⟩ := exists_completeOutputs htable
    refine Yields.ends_bind hwalk (ends_of_yields (yields_ofExcept.mpr ⟨houtputs, rfl⟩) ?_)
    intro id hid
    obtain ⟨output, -, hbuilt⟩ := hdone id (hend.size ▸ hid)
    exact ⟨output, hbuilt⟩
  · refine ends_of_fails (fails_bind.mpr (.inl hfails)) ⟨rfl, fun hfits => hover (hfits f hf)⟩

/-! ## Backward -/

section

variable {E : Failure → Prop} {t : Tape}

/-- What arrives at a source was handed out. -/
theorem exists_mem_of_mem_gradientsInto {source : Source} {handed : List (Source × Handle)}
    {gradient : Handle} (h : gradient ∈ gradientsInto source handed) :
    ∃ entry ∈ handed, entry.2 = gradient := by
  obtain ⟨entry, hentry, hfound⟩ := List.mem_filterMap.mp h
  split at hfound
  · cases hfound
    exact ⟨entry, hentry, rfl⟩
  · cases hfound

theorem has_of_mem_gradientsInto {source : Source} {handed : List (Source × Handle)}
    (h : ∀ entry ∈ handed, t.Has entry.2) : ∀ gradient ∈ gradientsInto source handed,
    t.Has gradient := by
  intro gradient hgradient
  obtain ⟨entry, hentry, rfl⟩ := exists_mem_of_mem_gradientsInto hgradient
  exact h entry hentry

theorem ends_enteringGradient {output : Handle} {arrived : List Handle} (houtput : t.Has output)
    (harrived : ∀ gradient ∈ arrived, t.Has gradient) :
    (enteringGradient output arrived : Op Failure Tape Handle).Ends t
      (fun node t' => t.GoesOn t' ∧ t'.Has node) E := by
  refine ends_mapError ?_
  split
  · exact Tape.ends_appendOutputGradient houtput
  · next hne => exact Tape.ends_appendAccumulation (by simpa using hne) harrived

theorem ends_rawGradient {handed : List (Source × Handle)} (h : ∀ entry ∈ handed, t.Has entry.2)
    (slot : Nat) : (rawGradient handed slot : Op Failure Tape (Option Handle)).Ends t
      (fun _ t' => t.GoesOn t') E := by
  rw [rawGradient]
  split
  · exact ends_pure (.refl t)
  · next hne =>
    have hsum := Tape.ends_appendAccumulation (E := fun e => E (.backend e)) hne
      (has_of_mem_gradientsInto h)
    exact ends_bind (ends_mapError hsum) fun _ _ ht => ends_pure ht.1

theorem ends_rawGradients {handed : List (Source × Handle)} (h : ∀ entry ∈ handed, t.Has entry.2)
    (slots : List Nat) :
    (forEach (rawGradient handed) slots : Op Failure Tape (List (Option Handle))).Ends t
      (fun _ t' => t.GoesOn t') E := by
  induction slots generalizing t with
  | nil => exact ends_pure (.refl t)
  | cons slot rest ih =>
    refine ends_bind (ends_rawGradient h slot) fun _ u hfirst => ?_
    refine ends_bind (ih fun entry hentry => hfirst.has (h entry hentry)) fun _ v hmore => ?_
    exact ends_pure (hfirst.trans hmore)

/-- A walk over flows that are built forward goes on to the end, and all it hands out is on the
tape. -/
theorem ends_buildBackwardIn {ids : List Nat} {handed : List (Source × Handle)} {g : Graph}
    (honce : ids.Nodup) (hbuilt : ∀ id ∈ ids, ∃ output, g.BuiltOn t id output)
    (hhanded : ∀ entry ∈ handed, t.Has entry.2) :
    (buildBackwardIn ids handed : Op Failure (Graph × Tape) (List (Source × Handle))).Ends (g, t)
      (fun handed' s => ∀ entry ∈ handed', s.2.Has entry.2) E := by
  induction ids generalizing handed g t with
  | nil => exact ends_pure hhanded
  | cons id rest ih =>
    rw [List.forall_mem_cons] at hbuilt
    obtain ⟨⟨_, f, forward, hf, hstate, rfl, hnodes⟩, hlater⟩ := hbuilt
    obtain ⟨hnew, honce⟩ := List.nodup_cons.mp honce
    refine ends_get_bind ((yields_ofExcept.mpr ⟨flow_eq_ok_iff.mpr hf, rfl⟩).ends_bind ?_)
    have houtput : f.outputHandle? = some forward.output := by rw [Flow.outputHandle?, hstate]; rfl
    simp only [houtput]
    -- First the gradient of the output, then the nodes of the flow itself.
    refine ends_bind (R := fun node s => ∃ u, s = (g, u) ∧ t.GoesOn u ∧ u.Has node)
      (ends_zoom ((ends_enteringGradient hnodes.output (has_of_mem_gradientsInto hhanded)).mono
        fun node u hu => ⟨u, rfl, hu⟩)) ?_
    rintro node _ ⟨u, rfl, hfirst, hnode⟩
    have hbackward := Flow.ends_buildBackward (E := E) hstate (hnodes.goesOn hfirst) hnode
    refine ends_bind (R := fun gradients s => ∃ f', s.1 = g.setFlow id f' ∧ u.GoesOn s.2 ∧
      ∀ gradient ∈ gradients, s.2.Has gradient)
      (ends_onFlow hf (hbackward.mono fun gradients s hs => ⟨s.1, rfl, hs⟩)) ?_
    rintro gradients ⟨_, v⟩ ⟨f', rfl, hsecond, hgradients⟩
    have hgoes := hfirst.trans hsecond
    refine ih honce (fun other hmem => ?_) fun entry hentry => ?_
    · obtain ⟨output, hother⟩ := hlater other hmem
      have hne : id ≠ other := fun heq => hnew (heq ▸ hmem)
      exact ⟨output, hother.setFlow hne hgoes f'⟩
    · rcases List.mem_append.mp hentry with hentry | hentry
      · exact hgoes.has (hhanded entry hentry)
      · exact hgradients entry.2 (List.of_mem_zip hentry).2

/-- A graph that was built forward on nodes of the tape is built backward. -/
theorem WellFormed.ends_buildBackwardAll {g : Graph} (h : g.WellFormed)
    (hbuilt : ∀ id < g.size, ∃ output, g.BuiltOn t id output) :
    (Graph.buildBackwardAll : Op Failure (Graph × Tape) (List (Option Handle))).Ends (g, t)
      (fun _ _ => True) E := by
  refine Yields.ends_bind (yields_zoom.mpr ⟨_, h.yields_ensureVerified, rfl⟩) ?_
  have hids : ∀ id ∈ g.references.order.reverse, ∃ output, g.BuiltOn t id output :=
    fun id hid => hbuilt id ((mem_order_iff h.sound).mp (List.mem_reverse.mp hid))
  have honce := List.nodup_reverse.mpr (References.order_nodup g.references)
  refine ends_bind (ends_buildBackwardIn honce hids (by simp)) fun handed s hhanded => ?_
  exact ends_get_bind (ends_zoom ((ends_rawGradients hhanded _).mono fun _ _ _ => trivial))

end

/-! ## Everything -/

/-- After an inference that succeeds, builds on a tape that refuses no label go through, forward
and backward, as long as no selection matrix of a fusion is too large; where one is, all that can
happen is that the forward build overflows. -/
theorem buildAll_goesThrough {g g' : Graph} (h : g.Reachable) (hknown : g.Known) {changed : Bool}
    (hinfer : inferAll.Yields g changed g') {t : Tape} (hopen : t.rejects = none)
    {raw : List Handle} (hraw : g.Handled raw t) :
    (∃ outputs s gradients s', (buildForwardAll raw).Yields (g', t) outputs s ∧
      buildBackwardAll.Yields s gradients s') ∨
    ¬ g'.FusionsFit ∧ ∃ s, (buildForwardAll raw).Fails (g', t) .overflow s := by
  have hreach : g'.Reachable := hinfer.2 ▸ h.step (.inferAll g)
  have hsettled := h.wellFormed.settled_of_inferAll hinfer
  have hready := hknown.ready h.wellFormed.sound hsettled
  have hhandled : g'.Handled raw t := by
    rw [Handled, hsettled.1.rawInputs]
    exact hraw
  rcases hreach.wellFormed.ends_buildForwardAll hready hopen hhandled with
    ⟨outputs, ⟨built, u⟩, hforward, hbuilt⟩ | ⟨e, s, hfails, rfl, hover⟩
  · have hafter : built.Reachable := by
      have hstep := hreach.step (.buildForwardAll g' t raw)
      rwa [hforward.2] at hstep
    obtain ⟨gradients, s, hbackward, -⟩ :=
      (hafter.wellFormed.ends_buildBackwardAll hbuilt).exists_yields
    exact .inl ⟨outputs, (built, u), gradients, s, hforward, hbackward⟩
  · exact .inr ⟨hover, s, hfails⟩

theorem known_diamond : diamond.Known where
  rawInputs := by simp [diamond, Shape.Known]
  layers := bounded_diamond.layers

/-- The flow that reads two others selects six channels from eight. -/
theorem buildAll_goesThrough_diamond :
    (inferAll.run diamond).result = .ok true ∧
    ∃ outputs s gradients s',
      (buildForwardAll [⟨0⟩]).Yields ((inferAll.run diamond).state, diamondTape) outputs s ∧
        buildBackwardAll.Yields s gradients s' := by
  have hinfer : inferAll.Yields diamond true (inferAll.run diamond).state := ⟨rfl, rfl⟩
  have hraw : diamond.Handled [⟨0⟩] diamondTape := by
    intro slot hslot
    obtain rfl := Nat.lt_one_iff.mp hslot
    exact ⟨⟨0⟩, rfl, Nat.zero_lt_one⟩
  have hfits : (inferAll.run diamond).state.FusionsFit := by decide +kernel
  refine ⟨hinfer.1, ?_⟩
  have hends := buildAll_goesThrough reachable_diamond known_diamond hinfer rfl hraw
  exact hends.resolve_right fun hover => hover.1 hfits

end LayerFlow.Graph
