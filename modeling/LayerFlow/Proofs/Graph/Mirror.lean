/-
LayerFlow.Proofs.Graph.Mirror

A complete build leaves two halves on the tape, and the second is the mirror image of the first:
each forward kernel is differentiated once, last to first, and each concatenation is split once,
part by part, last to first.  The seeds and sums that stand in between name neither.

Main statement: `buildAll_mirrors`.
-/
import LayerFlow.Proofs.Graph.Recording

namespace LayerFlow

/-! ## What nodes name -/

/-- The handle and the label of a forward kernel. -/
def forwardOf : Handle × Instruction → Option (Handle × String)
  | (node, .forward kernel _ _) => some (node, kernel.label)
  | _ => none

/-- The forward node that a gradient names, with the label. -/
def gradientOf : Handle × Instruction → Option (Handle × String)
  | (_, .gradient node label _) => some (node, label)
  | _ => none

/-- The handle of a concatenation and its sources. -/
def concatOf : Handle × Instruction → Option (Handle × List Handle)
  | (node, .concat sources) => some (node, sources)
  | _ => none

/-- The concatenation that a part of its gradient names, and the place of the part. -/
def concatGradientOf : Handle × Instruction → Option (Handle × Nat)
  | (_, .concatGradient node index _) => some (node, index)
  | _ => none

/-- All parts of the gradient of a concatenation in order, one for each source. -/
def partsOf (entry : Handle × List Handle) : List (Handle × Nat) :=
  (List.range entry.2.length).map fun index => (entry.1, index)

theorem flatMap_eq_of_forall₂ {α β γ : Type} {R : α → β → Prop} {f : α → List γ} {g : β → List γ}
    {xs : List α} {ys : List β} (h : List.Forall₂ R xs ys) (hpair : ∀ x y, R x y → g y = f x) :
    ys.flatMap g = xs.flatMap f := by
  induction h with
  | nil => rfl
  | cons hfirst hrest ih => rw [List.flatMap_cons, List.flatMap_cons, hpair _ _ hfirst, ih]

namespace Call

variable {γ : Type} {pick : Handle × Instruction → Option γ}

theorem filterMap_parts_eq_nil {node source : Handle} {answers : List Handle}
    (hpick : ∀ part index, pick (part, .concatGradient node index source) = none) :
    (concatenationGradient node source answers).records.filterMap pick = [] := by
  rw [List.filterMap_eq_nil_iff]
  intro entry hentry
  obtain ⟨part, -, rfl⟩ := List.mem_map.mp hentry
  exact hpick part.1 part.2

/-- The requests between flows append seeds and sums at most. -/
theorem filterMap_eq_nil_of_isTransfer {call : Call} (h : call.isTransfer = true)
    (hseed : ∀ answer output, pick (answer, .outputGradient output) = none)
    (hsum : ∀ answer gradients, pick (answer, .accumulate gradients) = none) :
    call.records.filterMap pick = [] := by
  cases call with
  | outputGradient output answer =>
    rw [records, List.filterMap_cons, hseed]
    rfl
  | accumulation gradients answer =>
    rw [records]
    split
    · rfl
    · rw [List.filterMap_cons, hsum]
      rfl
  | forward | gradient | concatenation | concatenationGradient | refused => cases h

theorem eq_of_mem_concatOf {call : Call} {node : Handle} {sources : List Handle}
    (h : (node, sources) ∈ call.records.filterMap concatOf) :
    call = .concatenation sources node := by
  cases call with
  | concatenation inputs answer =>
    cases List.mem_singleton.mp h
    rfl
  | concatenationGradient concatenation source answers =>
    rw [filterMap_parts_eq_nil fun _ _ => rfl] at h
    cases h
  | outputGradient | accumulation =>
    rw [filterMap_eq_nil_of_isTransfer rfl (fun _ _ => rfl) fun _ _ => rfl] at h
    cases h
  | forward | gradient | refused => cases h

namespace Mirrors

variable {c d : Call}

theorem gradientOf_eq (h : Mirrors c d) :
    d.records.filterMap gradientOf = (c.records.filterMap forwardOf).reverse := by
  cases h with
  | kernel => rfl
  | concatenation => exact filterMap_parts_eq_nil fun _ _ => rfl

theorem concatGradientOf_eq (h : Mirrors c d) :
    d.records.filterMap concatGradientOf =
      (c.records.filterMap concatOf).reverse.flatMap partsOf := by
  cases h with
  | kernel => rfl
  | @concatenation inputs answers node source hcount =>
    -- The answers are numbered in order, one for each source.
    have hpick : concatGradientOf ∘ (fun part : Handle × Nat =>
        (part.1, Instruction.concatGradient node part.2 source)) =
        some ∘ fun part => (node, part.2) := rfl
    show (answers.zipIdx.map _).filterMap concatGradientOf = partsOf (node, inputs) ++ []
    rw [List.filterMap_map, hpick, List.filterMap_eq_map, List.append_nil, partsOf, ← hcount,
      List.range_eq_range', ← List.zipIdx_map_snd 0 answers, List.map_map]
    rfl

/-- A forward request names no gradient. -/
theorem left_eq_nil (h : Mirrors c d) : c.records.filterMap gradientOf = [] ∧
    c.records.filterMap concatGradientOf = [] := by
  cases h with
  | kernel => exact ⟨rfl, rfl⟩
  | concatenation => exact ⟨rfl, rfl⟩

/-- The request for a gradient appends no forward node. -/
theorem right_eq_nil (h : Mirrors c d) : d.records.filterMap forwardOf = [] ∧
    d.records.filterMap concatOf = [] := by
  cases h with
  | kernel => exact ⟨rfl, rfl⟩
  | concatenation =>
    exact ⟨filterMap_parts_eq_nil fun _ _ => rfl, filterMap_parts_eq_nil fun _ _ => rfl⟩

end Mirrors

end Call

/-! ## Flow by flow -/

namespace Graph

theorem isTransfer_entry (s : BackwardStep) (arrived : List Handle) :
    (s.entry arrived).isTransfer = true := by
  rw [BackwardStep.entry]
  split <;> rfl

theorem isTransfer_of_mem_rawCalls {arrivedAt : Nat → List Handle} {slots : List Nat}
    {answers : List (Option Handle)} {call : Call}
    (h : call ∈ rawCalls arrivedAt slots answers) : call.isTransfer = true := by
  obtain ⟨entry, -, hcall⟩ := List.mem_flatMap.mp h
  obtain ⟨answer, -, rfl⟩ := Option.map_eq_some_iff.mp (Option.mem_toList.mp hcall)
  rfl

/-- What does not look at requests between flows sees those of the flows only. -/
theorem Routed.flatMap_calls {g g' : Graph} {steps : List BackwardStep}
    {answers : List (Option Handle)} {calls : List Call} (h : Routed g g' steps answers calls)
    {γ : Type} {f : Call → List γ} (hf : ∀ call, call.isTransfer = true → f call = []) :
    calls.flatMap f = (steps.flatMap BackwardStep.own).flatMap f := by
  have hraw : (rawCalls (fun slot => LayerFlow.arrived steps (.raw slot))
      (List.range g.rawInputs.length) answers).flatMap f = [] := by
    rw [List.flatMap_eq_nil_iff]
    intro call hcall
    exact hf call (isTransfer_of_mem_rawCalls hcall)
  -- Of each step only the requests for its own nodes are left.
  rw [h.calls, List.flatMap_append, hraw, List.append_nil, List.flatMap_assoc, List.flatMap_assoc]
  apply List.flatMap_congr
  intro s hs
  rw [List.flatMap_cons, hf _ (isTransfer_entry s _), List.nil_append]

namespace TapeBuild

variable {g g' : Graph} {t t' : Tape} {answers : List (Option Handle)}

/-- The flows are built backward in the reverse of the order in which they are built forward, and
each of them from the nodes of its forward build. -/
theorem paired (b : TapeBuild g g' t t' answers) :
    List.Forall₂ (fun (f : ForwardStep) (k : BackwardStep) =>
      f ∈ b.forwards ∧ k ∈ b.backwards ∧ k.id = f.id ∧ k.flow = f.after ∧
        k.forward = f.forward)
      b.forwards.reverse b.backwards := by
  have hids : b.forwards.reverse.map ForwardStep.id = b.backwards.map BackwardStep.id := by
    rw [List.map_reverse, b.forwardOrder, b.routed.order, b.references_eq]
  have hsame : List.Forall₂ (· = ·) (b.forwards.reverse.map ForwardStep.id)
      (b.backwards.map BackwardStep.id) := by
    rw [hids]
    exact List.forall₂_refl _
  rw [List.forall₂_map_left_iff, List.forall₂_map_right_iff] at hsame
  obtain ⟨hlength, hzip⟩ := List.forall₂_iff_zip.mp hsame
  refine List.forall₂_iff_zip.mpr ⟨hlength, fun {f k} hmem => ?_⟩
  have hid := hzip hmem
  obtain ⟨hf, hk⟩ := List.of_mem_zip hmem
  rw [List.mem_reverse] at hf
  -- Both steps are about what the first one left of the flow.
  have hafter := b.forward.after f hf
  obtain ⟨hbuilds, -, -⟩ := b.routed.built k hk
  have hflow : k.flow = f.after := by
    rw [hid, hbuilds.flow] at hafter
    exact Option.some.inj hafter
  have hstate := hbuilds.state
  rw [hflow] at hstate
  exact ⟨hf, hk, hid.symm, hflow, (BuildState.forwardBuilt.inj hstate).symm⟩

/-- The requests for the flows' own nodes, backward, mirror those of the forward build. -/
theorem mirrors (b : TapeBuild g g' t t' answers) :
    List.Forall₂ Call.Mirrors (b.forwards.flatMap ForwardStep.own).reverse
      (b.backwards.flatMap BackwardStep.own) := by
  rw [List.reverse_flatMap]
  -- The reverse of all requests is that of the flows, each of them reversed.
  refine List.rel_flatMap b.paired ?_
  rintro f k ⟨hf, hk, -, hflow, hforward⟩
  obtain ⟨hbare, hown, -⟩ := b.forward.builds f hf
  obtain ⟨hbuilds, -, -⟩ := b.routed.built k hk
  have hgradients := hbuilds.own
  rw [hforward] at hgradients
  refine Flow.mirrors_of_builds hown ?_ ?_ hgradients
  · rw [hflow]
    exact hbare
  · rw [hflow]
    rfl

/-- What a view of the nodes sees that looks at no seeds and sums: what the flows asked for
forward, and then what they asked for backward. -/
theorem filterMap_appended (b : TapeBuild g g' t t' answers) {γ : Type}
    {pick : Handle × Instruction → Option γ}
    (hseed : ∀ answer output, pick (answer, .outputGradient output) = none)
    (hsum : ∀ answer gradients, pick (answer, .accumulate gradients) = none) :
    (appended t t').filterMap pick =
      ((b.forwards.flatMap ForwardStep.own).flatMap fun c => c.records.filterMap pick) ++
      (b.backwards.flatMap BackwardStep.own).flatMap fun c => c.records.filterMap pick := by
  rw [b.appended_eq, List.filterMap_flatMap, List.flatMap_append]
  congr 1
  apply b.routed.flatMap_calls
  intro call hcall
  exact Call.filterMap_eq_nil_of_isTransfer hcall hseed hsum

/-- What every forward request lacks, the forward build lacks. -/
theorem flatMap_forwards_eq_nil (b : TapeBuild g g' t t' answers) {γ : Type} {f : Call → List γ}
    (hf : ∀ c d, Call.Mirrors c d → f c = []) :
    (b.forwards.flatMap ForwardStep.own).flatMap f = [] := by
  have hreversed : List.Forall₂ Call.Mirrors (b.forwards.flatMap ForwardStep.own)
      (b.backwards.flatMap BackwardStep.own).reverse := by
    rw [← List.forall₂_reverse_iff, List.reverse_reverse]
    exact b.mirrors
  have hnil := flatMap_eq_of_forall₂ (f := fun _ => []) hreversed.flip fun d c h => hf c d h
  rw [hnil]
  simp

/-- What every request for a gradient lacks, the flows lack backward. -/
theorem flatMap_backwards_eq_nil (b : TapeBuild g g' t t' answers) {γ : Type}
    {f : Call → List γ} (hf : ∀ c d, Call.Mirrors c d → f d = []) :
    (b.backwards.flatMap BackwardStep.own).flatMap f = [] := by
  rw [flatMap_eq_of_forall₂ (f := fun _ => []) b.mirrors hf]
  simp

theorem filterMap_of_forward (b : TapeBuild g g' t t' answers) {γ : Type}
    {pick : Handle × Instruction → Option γ}
    (hseed : ∀ answer output, pick (answer, .outputGradient output) = none)
    (hsum : ∀ answer gradients, pick (answer, .accumulate gradients) = none)
    (hpick : ∀ c d, Call.Mirrors c d → d.records.filterMap pick = []) :
    (appended t t').filterMap pick =
      (b.forwards.flatMap ForwardStep.own).flatMap fun c => c.records.filterMap pick := by
  rw [b.filterMap_appended hseed hsum, b.flatMap_backwards_eq_nil hpick, List.append_nil]

theorem filterMap_of_backward (b : TapeBuild g g' t t' answers) {γ : Type}
    {pick : Handle × Instruction → Option γ}
    (hseed : ∀ answer output, pick (answer, .outputGradient output) = none)
    (hsum : ∀ answer gradients, pick (answer, .accumulate gradients) = none)
    (hpick : ∀ c d, Call.Mirrors c d → c.records.filterMap pick = []) :
    (appended t t').filterMap pick =
      (b.backwards.flatMap BackwardStep.own).flatMap fun c => c.records.filterMap pick := by
  rw [b.filterMap_appended hseed hsum, b.flatMap_forwards_eq_nil hpick, List.nil_append]

end TapeBuild

/-! ## The mirror -/

/-- The second half of what a build appends mirrors the first. -/
structure Mirrored (g g' : Graph) (t t' : Tape) : Prop where
  /-- The tape keeps what it held before, and each node has a handle of its own. -/
  kept : t.records <+: t'.records
  nodup : ((appended t t').map Prod.fst).Nodup
  /-- The forward kernels are differentiated once each, last to first, under their own names. -/
  gradients : (appended t t').filterMap gradientOf =
    ((appended t t').filterMap forwardOf).reverse
  /-- The concatenations are split once each, last to first, part by part. -/
  concatGradients : (appended t t').filterMap concatGradientOf =
    ((appended t t').filterMap concatOf).reverse.flatMap partsOf
  /-- The parts of a concatenation stand in one run after the gradient of its contraction, and
  take it in. -/
  runs : ∀ node sources, (node, .concat sources) ∈ appended t t' →
    ∃ (kernel : Kernel) (contraction source middle : Handle) (parts : List Handle),
      parts.length = sources.length ∧
      [(node, .concat sources), (contraction, .forward kernel .validOnly node)] <:+:
        appended t t' ∧
      (middle, .gradient contraction kernel.label source) ::
        parts.zipIdx.map (fun part => (part.1, .concatGradient node part.2 middle)) <:+:
        appended t t'
  /-- Within a flow every layer takes in the gradient of the next, and the last one that of the
  output of the flow. -/
  layers : ∀ id f, g'.flows[id]? = some f → ∃ forward gradients entering layerGradients,
    f.state = .backwardBuilt forward gradients ∧
      Entering g g' (appended t t') id forward.output entering ∧
      Flow.LayerGradients (appended t t') entering forward.layers layerGradients ∧
      Flow.SourceGradients (appended t t') forward (layerGradients.head?.getD entering) gradients

namespace TapeBuild

variable {g g' : Graph} {t t' : Tape} {answers : List (Option Handle)}

theorem gradients_eq (b : TapeBuild g g' t t' answers) :
    (appended t t').filterMap gradientOf = ((appended t t').filterMap forwardOf).reverse := by
  rw [b.filterMap_of_forward (fun _ _ => rfl) (fun _ _ => rfl) fun _ _ h => h.right_eq_nil.1,
    b.filterMap_of_backward (fun _ _ => rfl) (fun _ _ => rfl) fun _ _ h => h.left_eq_nil.1,
    List.reverse_flatMap]
  exact flatMap_eq_of_forall₂ b.mirrors fun _ _ h => h.gradientOf_eq

theorem concatGradients_eq (b : TapeBuild g g' t t' answers) :
    (appended t t').filterMap concatGradientOf =
      ((appended t t').filterMap concatOf).reverse.flatMap partsOf := by
  rw [b.filterMap_of_forward (fun _ _ => rfl) (fun _ _ => rfl) fun _ _ h => h.right_eq_nil.2,
    b.filterMap_of_backward (fun _ _ => rfl) (fun _ _ => rfl) fun _ _ h => h.left_eq_nil.2,
    List.reverse_flatMap]
  refine (flatMap_eq_of_forall₂ b.mirrors fun _ _ h => h.concatGradientOf_eq).trans ?_
  exact List.flatMap_assoc.symm

/-- Requests that follow one another leave nodes that follow one another. -/
theorem infix_appended (b : TapeBuild g g' t t' answers) {calls : List Call}
    (h : calls <:+: b.forwards.flatMap ForwardStep.own ++ b.calls) :
    calls.flatMap Call.records <:+: appended t t' := by
  rw [b.appended_eq]
  exact h.flatMap _

/-- What a view sees that looks at forward nodes only was asked for by a flow. -/
theorem exists_call (b : TapeBuild g g' t t' answers) {γ : Type}
    {pick : Handle × Instruction → Option γ}
    (hseed : ∀ answer output, pick (answer, .outputGradient output) = none)
    (hsum : ∀ answer gradients, pick (answer, .accumulate gradients) = none)
    (hpick : ∀ c d, Call.Mirrors c d → d.records.filterMap pick = []) {x : γ}
    (hx : x ∈ (appended t t').filterMap pick) :
    ∃ s ∈ b.forwards, ∃ call ∈ s.own, x ∈ call.records.filterMap pick := by
  rw [b.filterMap_of_forward hseed hsum hpick] at hx
  obtain ⟨call, hcall, hmem⟩ := List.mem_flatMap.mp hx
  obtain ⟨s, hs, hown⟩ := List.mem_flatMap.mp hcall
  exact ⟨s, hs, call, hown, hmem⟩

/-- A concatenation on the tape belongs to the fusion of a flow. -/
theorem exists_of_concat (b : TapeBuild g g' t t' answers) {node : Handle}
    {sources : List Handle} (h : (node, .concat sources) ∈ appended t t') :
    ∃ f ∈ b.forwards, .concatenation sources node ∈ f.own := by
  have hview : (node, sources) ∈ (appended t t').filterMap concatOf :=
    List.mem_filterMap.mpr ⟨_, h, rfl⟩
  obtain ⟨f, hf, call, hcall, hmem⟩ :=
    b.exists_call (fun _ _ => rfl) (fun _ _ => rfl) (fun _ _ h => h.right_eq_nil.2) hview
  exact ⟨f, hf, Call.eq_of_mem_concatOf hmem ▸ hcall⟩

/-- The step backward of a flow that was built forward. -/
theorem exists_backward (b : TapeBuild g g' t t' answers) {f : ForwardStep}
    (hf : f ∈ b.forwards) :
    ∃ k ∈ b.backwards, k.id = f.id ∧ k.flow = f.after ∧ k.forward = f.forward := by
  obtain ⟨i, hi⟩ := List.mem_iff_getElem?.mp (List.mem_reverse.mpr hf)
  obtain ⟨k, -, -, hk, hkept⟩ := Traversal.exists_getElem?_of_forall₂ b.paired hi
  exact ⟨k, hk, hkept⟩

theorem infix_own_forward (b : TapeBuild g g' t t' answers) {f : ForwardStep}
    (hf : f ∈ b.forwards) : f.own <:+: b.forwards.flatMap ForwardStep.own ++ b.calls :=
  (List.infix_of_mem_flatten (List.mem_map_of_mem hf)).trans (List.prefix_append _ _).isInfix

theorem infix_own_backward (b : TapeBuild g g' t t' answers) {k : BackwardStep}
    (hk : k ∈ b.backwards) : k.own <:+: b.forwards.flatMap ForwardStep.own ++ b.calls := by
  refine List.IsInfix.trans ?_ (List.suffix_append _ _).isInfix
  rw [b.routed.calls]
  refine List.IsInfix.trans ?_ (List.prefix_append _ _).isInfix
  refine List.IsInfix.trans ?_ (List.infix_of_mem_flatten (List.mem_map_of_mem hk))
  exact (List.suffix_cons _ _).isInfix

theorem runs (b : TapeBuild g g' t t' answers) {node : Handle} {sources : List Handle}
    (h : (node, .concat sources) ∈ appended t t') :
    ∃ (kernel : Kernel) (contraction source middle : Handle) (parts : List Handle),
      parts.length = sources.length ∧
      [(node, .concat sources), (contraction, .forward kernel .validOnly node)] <:+:
        appended t t' ∧
      (middle, .gradient contraction kernel.label source) ::
        parts.zipIdx.map (fun part => (part.1, .concatGradient node part.2 middle)) <:+:
        appended t t' := by
  -- The flow that the concatenation belongs to, forward and backward.
  obtain ⟨f, hf, hmem⟩ := b.exists_of_concat h
  obtain ⟨k, hk, -, hflow, hforward⟩ := b.exists_backward hf
  have hown := (b.forward.builds f hf).own
  obtain ⟨nodes, rest, hfusion, rfl, hcount, hstart⟩ := hown.eq_of_concatenation hmem
  obtain ⟨hbuilds, -, -⟩ := b.routed.built k hk
  obtain ⟨front, source, middle, hlength, hend⟩ := hbuilds.own.eq_of_fusion (hforward ▸ hfusion)
  refine ⟨nodes.kernel, nodes.contraction, source, middle, k.gradients, hlength.trans hcount,
    ?_, ?_⟩
  -- Forward the fusion comes first,
  · have hfirst : [.concatenation sources nodes.concatenation, .forward nodes.kernel .validOnly
        nodes.concatenation nodes.contraction] <+: f.own := by
      rw [hstart]
      exact List.prefix_append _ rest
    exact b.infix_appended (hfirst.isInfix.trans (b.infix_own_forward hf))
  -- and backward last.
  · have hlast : [.gradient nodes.contraction nodes.kernel source middle,
        .concatenationGradient nodes.concatenation middle k.gradients] <:+ k.own := by
      rw [hend]
      exact List.suffix_append front _
    have hnodes := b.infix_appended (hlast.isInfix.trans (b.infix_own_backward hk))
    rw [List.flatMap_cons, List.flatMap_singleton] at hnodes
    exact hnodes

theorem layers (b : TapeBuild g g' t t' answers) {id : Nat} {f : Flow}
    (hf : g'.flows[id]? = some f) : ∃ forward gradients entering layerGradients,
      f.state = .backwardBuilt forward gradients ∧
        Entering g g' (appended t t') id forward.output entering ∧
        Flow.LayerGradients (appended t t') entering forward.layers layerGradients ∧
        Flow.SourceGradients (appended t t') forward (layerGradients.head?.getD entering)
          gradients := by
  have hid : id ∈ b.backwards.map BackwardStep.id := by
    rw [b.routed.every, ← List.length_map Flow.inputs, ← b.routed.inputs, List.length_map]
    exact (List.getElem?_eq_some_iff.mp hf).1
  obtain ⟨s, hs, rfl⟩ := List.mem_map.mp hid
  obtain ⟨-, hafter, -⟩ := b.routed.built s hs
  rw [hf] at hafter
  cases hafter
  obtain ⟨layerGradients, hlayers, hsources⟩ := b.propagated hs
  exact ⟨s.forward, s.gradients, s.entering, layerGradients, rfl, b.entering hs, hlayers, hsources⟩

theorem mirrored (b : TapeBuild g g' t t' answers) : Mirrored g g' t t' where
  kept := b.prefix_records
  nodup := nodup_appended t t'
  gradients := b.gradients_eq
  concatGradients := b.concatGradients_eq
  runs _ _ h := b.runs h
  layers _ _ hf := b.layers hf

end TapeBuild

/-- The backward half of a complete build on the tape is the mirror image of the forward half. -/
theorem buildAll_mirrors {s s' : Graph × Tape} (h : s.1.Reachable) {raw : List Handle}
    {build : GraphBuild} (hrun : (buildAll raw).Yields s build s') :
    Mirrored s.1 s'.1 s.2 s'.2 := by
  obtain ⟨b⟩ := h.tapeBuild hrun
  exact b.mirrored

/-- The kernels of the document are differentiated from the last one back to the shared flow. -/
theorem buildAll_mirrors_diamond :
    Mirrored diamond diamondBuild.state.1 diamondTape diamondBuild.state.2 ∧
      (appended diamondTape diamondBuild.state.2).filterMap gradientOf =
        [(⟨5⟩, "SoftMax"), (⟨4⟩, "Contraction"), (⟨2⟩, "LogSoftMax"), (⟨1⟩, "SoftMax")] := by
  have hmirrored := buildAll_mirrors reachable_diamond yields_diamondBuild
  refine ⟨hmirrored, ?_⟩
  have hforward : (appended diamondTape diamondBuild.state.2).filterMap forwardOf =
      [(⟨1⟩, "SoftMax"), (⟨2⟩, "LogSoftMax"), (⟨4⟩, "Contraction"), (⟨5⟩, "SoftMax")] := by
    decide +kernel
  have hgradients := hmirrored.gradients
  rw [hforward] at hgradients
  exact hgradients

end Graph

end LayerFlow
