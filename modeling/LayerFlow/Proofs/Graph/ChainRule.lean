/-
LayerFlow.Proofs.Graph.ChainRule

The chain rule on the tape.  A flow that nothing reads is seeded once, and its seed contributes to
the gradient of a raw input once for each way in which the document leads from the flow down to
that input.  The proof follows the walk backward: what reaches a flow has been counted at all its
readers before.

Main statement: `buildAll_chainRule`.
-/
import LayerFlow.Proofs.Backend.GradientFlow
import LayerFlow.Proofs.Graph.Mirror

namespace LayerFlow.Graph

/-! ## Ways through the document -/

/-- A flow reads a source at one of its places. -/
def Refers (g : Graph) (reader : Source) (place : Nat × Nat) (source : Source) : Prop :=
  reader = .flow place.1 ∧ ∃ f, g.flows[place.1]? = some f ∧ f.inputs[place.2]? = some source

/-- The ways down from a flow to a source, as the places on the way.  A source that a flow lists
several times is reached in several ways. -/
def referencePaths (g : Graph) (id : Nat) (source : Source) : Set (List (Nat × Nat)) :=
  walks g.Refers (.flow id) source

/-- The same ways, up from the source. -/
def readerPaths (g : Graph) (id : Nat) (source : Source) : Set (List (Nat × Nat)) :=
  walks (fun source place reader => g.Refers reader place source) source (.flow id)

theorem refers_iff {g : Graph} (hsound : Sound g.rawInputs.length g.flows) {source : Source}
    {place : Nat × Nat} {reader : Source} : g.Refers reader place source ↔
      (place, reader) ∈ (g.places source).map fun place => (place, Source.flow place.1) := by
  rw [List.mem_map]
  constructor
  · rintro ⟨rfl, hread⟩
    exact ⟨place, (mem_places hsound).mpr hread, rfl⟩
  · rintro ⟨other, hother, heq⟩
    cases heq
    exact ⟨rfl, (mem_places hsound).mp hother⟩

/-- The ways up from a source are those from its readers. -/
theorem counts_readerPaths {g : Graph} (hsound : Sound g.rawInputs.length g.flows) {id : Nat}
    {source : Source} (hne : source ≠ .flow id) {counts : List Nat}
    (hcounts : List.Forall₂ (fun (place : Nat × Nat) n =>
      Counts (g.readerPaths id (.flow place.1)) n) (g.places source) counts) :
    Counts (g.readerPaths id source) counts.sum := by
  refine counts_of_edges hne (fun place reader => refers_iff hsound) ?_ ?_
  · rw [List.map_map]
    show ((g.places source).map fun place => place).Nodup
    rw [List.map_id']
    exact nodup_places g source
  · rw [List.forall₂_map_left_iff]
    exact hcounts

theorem counts_readerPaths_of_unread {g : Graph} (hsound : Sound g.rawInputs.length g.flows)
    {id : Nat} {source : Source} (hne : source ≠ .flow id) (hunread : g.places source = []) :
    Counts (g.readerPaths id source) 0 := by
  have hcounts : List.Forall₂ (fun (place : Nat × Nat) n =>
      Counts (g.readerPaths id (.flow place.1)) n) (g.places source) [] := by
    rw [hunread]
    exact .nil
  exact counts_readerPaths hsound hne hcounts

/-- Nothing is above a flow that nothing reads. -/
theorem counts_readerPaths_self {g : Graph} (hsound : Sound g.rawInputs.length g.flows) {id : Nat}
    (hexit : g.consumers id = []) : Counts (g.readerPaths id (.flow id)) 1 := by
  apply counts_self
  intro place reader hrefers
  rw [refers_iff hsound, (places_flow_eq_nil_iff hsound).mpr hexit] at hrefers
  cases hrefers

/-! ## Both counts side by side -/

/-- A gradient depends on a seed in as many ways as the document leads from a flow down to a
source. -/
def Agree (g : Graph) (records : List (Handle × Instruction)) (id : Nat) (seed gradient : Handle)
    (source : Source) : Prop :=
  ∃ n, Counts (gradientPaths records gradient seed) n ∧ Counts (g.readerPaths id source) n

theorem exists_counts {α β : Type} {P : α → Nat → Prop} {Q : β → Nat → Prop} {xs : List α}
    {ys : List β} (h : List.Forall₂ (fun x y => ∃ n, P x n ∧ Q y n) xs ys) :
    ∃ counts, List.Forall₂ P xs counts ∧ List.Forall₂ Q ys counts := by
  induction h with
  | nil => exact ⟨[], .nil, .nil⟩
  | cons hfirst hrest ih =>
    obtain ⟨n, hP, hQ⟩ := hfirst
    obtain ⟨counts, hPs, hQs⟩ := ih
    exact ⟨n :: counts, .cons hP hPs, .cons hQ hQs⟩

section

variable {g : Graph} {records : List (Handle × Instruction)}

/-- A sum depends on a seed in as many ways as its summands together. -/
theorem counts_of_isSum (hnodup : (records.map Prod.fst).Nodup) {seed output : Handle}
    (hseed : (seed, .outputGradient output) ∈ records) {gradients : List Handle} {sum : Handle}
    (hsum : IsSum records gradients sum) {counts : List Nat}
    (hcounts : List.Forall₂ (fun gradient n => Counts (gradientPaths records gradient seed) n)
      gradients counts) : Counts (gradientPaths records sum seed) counts.sum := by
  cases hsum with
  | single =>
    cases hcounts with
    | cons hfirst hnil =>
      cases hnil
      exact hfirst
  | several hmany hnode =>
    -- The node of the sum is no seed, so every way to the seed goes through a summand.
    have hne := ne_seed hnodup hnode (List.ne_nil_of_length_pos (by
      show 0 < gradients.length
      omega)) hseed
    exact counts_node hnodup hnode hne hcounts

/-- What arrives at a source agrees with the document if what its readers hand out does. -/
theorem agree_of_arrived (hsound : Sound g.rawInputs.length g.flows)
    (hnodup : (records.map Prod.fst).Nodup) {id : Nat} {seed output : Handle}
    (hseed : (seed, .outputGradient output) ∈ records) {source : Source}
    (hne : source ≠ .flow id) {arrived : List Handle} {sum : Handle}
    (harrived : List.Forall₂ (fun gradient (place : Nat × Nat) =>
      g.Agree records id seed gradient (.flow place.1)) arrived (g.places source))
    (hsum : IsSum records arrived sum) : g.Agree records id seed sum source := by
  obtain ⟨counts, hgradients, hplaces⟩ := exists_counts harrived
  exact ⟨counts.sum, counts_of_isSum hnodup hseed hsum hgradients,
    counts_readerPaths hsound hne hplaces⟩

/-- Layers pass the gradient of the output on. -/
theorem counts_layerGradients (hnodup : (records.map Prod.fst).Nodup) {seed output : Handle}
    (hseed : (seed, .outputGradient output) ∈ records) {entering : Handle}
    {nodes gradients : List Handle}
    (h : Flow.LayerGradients records entering nodes gradients) {n : Nat}
    (hcount : Counts (gradientPaths records entering seed) n) :
    Counts (gradientPaths records (gradients.head?.getD entering) seed) n := by
  induction h with
  | nil => exact hcount
  | cons label hnode hrest ih => exact counts_single hnodup hnode rfl hseed ih

/-- All sources of a flow get what arrives at the input of its layers. -/
theorem counts_sourceGradients (hnodup : (records.map Prod.fst).Nodup) {seed output : Handle}
    (hseed : (seed, .outputGradient output) ∈ records) {forward : ForwardNodes} {first : Handle}
    {gradients : List Handle} (h : Flow.SourceGradients records forward first gradients) {n : Nat}
    (hcount : Counts (gradientPaths records first seed) n) {gradient : Handle}
    (hmem : gradient ∈ gradients) : Counts (gradientPaths records gradient seed) n := by
  cases h with
  | single hfusion =>
    rw [List.mem_singleton.mp hmem]
    exact hcount
  | several hfusion hnode hparts =>
    obtain ⟨k, hk⟩ := List.mem_iff_getElem?.mp hmem
    -- The part takes in the gradient of the contraction, and that one what arrives there.
    have hmiddle := counts_single hnodup hnode rfl hseed hcount
    exact counts_single hnodup (hparts k gradient hk) rfl hseed hmiddle

end

/-! ## Seeds -/

/-- The handle of a seed and the output that it is for. -/
def seedOf : Handle × Instruction → Option (Handle × Handle)
  | (seed, .outputGradient output) => some (seed, output)
  | _ => none

theorem flatMap_ite_singleton {α β : Type} (p : α → Bool) (f : α → β) (xs : List α) :
    (xs.flatMap fun x => if p x then [f x] else []) = (xs.filter p).map f := by
  induction xs with
  | nil => rfl
  | cons x xs ih =>
    rw [List.flatMap_cons, ih]
    by_cases hx : p x = true
    · rw [if_pos hx, List.filter_cons_of_pos hx]
      rfl
    · rw [if_neg hx, List.filter_cons_of_neg hx]
      rfl

theorem fst_filterMap_sublist (records : List (Handle × Instruction)) :
    ((records.filterMap seedOf).map Prod.fst).Sublist (records.map Prod.fst) := by
  induction records with
  | nil => exact .slnil
  | cons entry rest ih =>
    rw [List.filterMap_cons, List.map_cons]
    rcases entry with ⟨node, instruction⟩
    cases instruction with
    | outputGradient output => exact ih.cons_cons node
    | readInput | forward | concat | gradient | concatGradient | accumulate => exact ih.cons node

/-- A sum is no seed. -/
theorem seedOf_accumulation (gradients : List Handle) (answer : Handle) :
    (Call.accumulation gradients answer).records.filterMap seedOf = [] := by
  rw [Call.records]
  split <;> rfl

namespace TapeBuild

variable {g g' : Graph} {t t' : Tape} {answers : List (Option Handle)}

/-- The steps of the flows that nothing reads. -/
def exits (b : TapeBuild g g' t t' answers) : List BackwardStep :=
  b.backwards.filter fun s => (g.consumers s.id).isEmpty

theorem mem_exits (b : TapeBuild g g' t t' answers) {s : BackwardStep} :
    s ∈ b.exits ↔ s ∈ b.backwards ∧ g.consumers s.id = [] := by
  rw [exits, List.mem_filter, List.isEmpty_iff]

/-- Forward builds plant no seeds. -/
theorem seeds_forward (b : TapeBuild g g' t t' answers) :
    (b.forwards.flatMap ForwardStep.own).flatMap (fun c => c.records.filterMap seedOf) = [] := by
  apply b.flatMap_forwards_eq_nil
  intro c d h
  cases h <;> rfl

/-- The nodes of a flow's own layers and sources are no seeds. -/
theorem seeds_own (b : TapeBuild g g' t t' answers) {s : BackwardStep} (hs : s ∈ b.backwards) :
    s.own.flatMap (fun c => c.records.filterMap seedOf) = [] := by
  have hown : (b.backwards.flatMap BackwardStep.own).flatMap
      (fun c => c.records.filterMap seedOf) = [] := by
    apply b.flatMap_backwards_eq_nil
    intro c d h
    cases h with
    | kernel => rfl
    | concatenation => exact Call.filterMap_parts_eq_nil fun _ _ => rfl
  rw [List.flatMap_assoc, List.flatMap_eq_nil_iff] at hown
  exact hown s hs

/-- The gradients of raw inputs are no seeds. -/
theorem seeds_raw (arrived : Nat → List Handle) (slots : List Nat)
    (answers : List (Option Handle)) : (rawCalls arrived slots answers).flatMap
      (fun c => c.records.filterMap seedOf) = [] := by
  rw [List.flatMap_eq_nil_iff]
  intro call hcall
  obtain ⟨entry, -, hmem⟩ := List.mem_flatMap.mp hcall
  obtain ⟨answer, -, rfl⟩ := Option.map_eq_some_iff.mp (Option.mem_toList.mp hmem)
  exact seedOf_accumulation _ answer

/-- The request for the gradient of a flow's output plants a seed exactly if nothing reads the
flow. -/
theorem seeds_entry (b : TapeBuild g g' t t' answers) {s : BackwardStep} (hs : s ∈ b.backwards) :
    (s.entry (arrived b.backwards (.flow s.id))).records.filterMap seedOf =
      if (g.consumers s.id).isEmpty then [(s.entering, s.forward.output)] else [] := by
  have hseeded := b.routed.seeded s hs
  rw [b.consumers_eq, ← List.isEmpty_iff (l := g.consumers s.id)] at hseeded
  rw [BackwardStep.entry]
  by_cases hnil : arrived b.backwards (.flow s.id) = []
  · rw [if_pos hnil, if_pos (hseeded.mp hnil)]
    rfl
  · rw [if_neg hnil, if_neg (mt hseeded.mpr hnil)]
    exact seedOf_accumulation _ _

/-- The seeds on the tape are those of the flows that nothing reads. -/
theorem seeds_eq (b : TapeBuild g g' t t' answers) :
    (appended t t').filterMap seedOf =
      b.exits.map fun s => (s.entering, s.forward.output) := by
  rw [b.appended_eq, List.filterMap_flatMap, List.flatMap_append, b.seeds_forward,
    List.nil_append, b.routed.calls, List.flatMap_append, seeds_raw, List.append_nil,
    List.flatMap_assoc, exits, ← flatMap_ite_singleton]
  apply List.flatMap_congr
  intro s hs
  rw [List.flatMap_cons, b.seeds_own hs, List.append_nil, b.seeds_entry hs]

/-- Each exit has a seed of its own. -/
theorem nodup_seeds (b : TapeBuild g g' t t' answers) :
    (b.exits.map BackwardStep.entering).Nodup := by
  have hsublist := fst_filterMap_sublist (appended t t')
  rw [b.seeds_eq, List.map_map] at hsublist
  exact (nodup_appended t t').sublist hsublist

theorem seed_mem (b : TapeBuild g g' t t' answers) {s : BackwardStep} (hs : s ∈ b.exits) :
    (s.entering, .outputGradient s.forward.output) ∈ appended t t' := by
  have hmem : (s.entering, s.forward.output) ∈ (appended t t').filterMap seedOf := by
    rw [b.seeds_eq]
    exact List.mem_map_of_mem hs
  obtain ⟨⟨node, instruction⟩, hnode, heq⟩ := List.mem_filterMap.mp hmem
  cases instruction with
  | outputGradient output =>
    cases heq
    exact hnode
  | readInput | forward | concat | gradient | concatGradient | accumulate => cases heq

/-! ## Along the walk -/

/-- What a flow hands out depends on a seed as its output does. -/
theorem agree_handed (b : TapeBuild g g' t t' answers) {exit s : BackwardStep}
    (hexit : exit ∈ b.exits) (hs : s ∈ b.backwards)
    (h : g.Agree (appended t t') exit.id exit.entering s.entering (.flow s.id)) {k : Nat}
    {gradient : Handle} (hgradient : g'.inputGradient? s.id k = some gradient) :
    g.Agree (appended t t') exit.id exit.entering gradient (.flow s.id) := by
  obtain ⟨n, hcount, hpaths⟩ := h
  obtain ⟨-, hafter, -⟩ := b.routed.built s hs
  have hmem : gradient ∈ s.gradients := by
    rw [inputGradient?, hafter] at hgradient
    exact List.mem_of_getElem? hgradient
  -- First down the layers of the flow, then into the parts for its sources.
  obtain ⟨layerGradients, hlayers, hsources⟩ := b.propagated hs
  have hseed := b.seed_mem hexit
  have hnodup := nodup_appended t t'
  have hfirst := counts_layerGradients hnodup hseed hlayers hcount
  exact ⟨n, counts_sourceGradients hnodup hseed hsources hfirst hmem, hpaths⟩

/-- What arrives at a source agrees with the document if its readers do. -/
theorem agree_source (b : TapeBuild g g' t t' answers)
    (hsound : Sound g.rawInputs.length g.flows) {exit : BackwardStep} (hexit : exit ∈ b.exits)
    {source : Source} (hne : source ≠ .flow exit.id)
    (hreaders : ∀ place ∈ g.places source, ∃ s ∈ b.backwards, s.id = place.1 ∧
      g.Agree (appended t t') exit.id exit.entering s.entering (.flow s.id))
    {arrived : List Handle} (harrived : arrived.map some = (g.places source).map fun place =>
      g'.inputGradient? place.1 place.2) {sum : Handle}
    (hsum : IsSum (appended t t') arrived sum) :
    g.Agree (appended t t') exit.id exit.entering sum source := by
  refine agree_of_arrived hsound (nodup_appended t t') (b.seed_mem hexit) hne ?_ hsum
  have hall : List.Forall₂ (· = ·) (arrived.map some) ((g.places source).map fun place =>
      g'.inputGradient? place.1 place.2) := by
    rw [harrived]
    exact List.forall₂_refl _
  -- The gradient at each place was handed out by the flow that reads there.
  rw [List.forall₂_map_left_iff, List.forall₂_map_right_iff, List.forall₂_iff_zip] at hall
  obtain ⟨hlength, hzip⟩ := hall
  refine List.forall₂_iff_zip.mpr ⟨hlength, fun {gradient place} hmem => ?_⟩
  obtain ⟨s, hs, hid, hagree⟩ := hreaders place (List.of_mem_zip hmem).2
  rw [← hid]
  apply b.agree_handed hexit hs hagree
  rw [hid]
  exact (hzip hmem).symm

/-- The seed of an exit depends on itself once and on no other seed. -/
theorem agree_exit (b : TapeBuild g g' t t' answers)
    (hsound : Sound g.rawInputs.length g.flows) {exit s : BackwardStep} (hexit : exit ∈ b.exits)
    (hs : s ∈ b.exits) :
    g.Agree (appended t t') exit.id exit.entering s.entering (.flow s.id) := by
  obtain ⟨hmem, hunread⟩ := b.mem_exits.mp hs
  obtain ⟨hexitMem, hexitUnread⟩ := b.mem_exits.mp hexit
  by_cases hid : s.id = exit.id
  · rw [List.inj_on_of_nodup_map b.routed.once hmem hexitMem hid]
    exact ⟨1, counts_seed (nodup_appended t t') (b.seed_mem hexit),
      counts_readerPaths_self hsound hexitUnread⟩
  · -- The seed of another exit is another node, and no flow reads the exit either.
    have hother : s.entering ≠ exit.entering := by
      intro heq
      exact hid (congrArg _ (List.inj_on_of_nodup_map b.nodup_seeds hs hexit heq))
    have hsource : Source.flow s.id ≠ .flow exit.id := by simpa using hid
    refine ⟨0, counts_node (nodup_appended t t') (b.seed_mem hs) hother .nil, ?_⟩
    exact counts_readerPaths_of_unread hsound hsource
      ((places_flow_eq_nil_iff hsound).mpr hunread)

/-- The next flow of the walk agrees with the document if those before it do: all its readers are
among them. -/
theorem agree_next (b : TapeBuild g g' t t' answers)
    (hsound : Sound g.rawInputs.length g.flows) {exit : BackwardStep} (hexit : exit ∈ b.exits)
    {done rest : List BackwardStep} {s : BackwardStep} (hsplit : b.backwards = done ++ s :: rest)
    (hdone : ∀ reader ∈ done,
      g.Agree (appended t t') exit.id exit.entering reader.entering (.flow reader.id)) :
    g.Agree (appended t t') exit.id exit.entering s.entering (.flow s.id) := by
  have hs : s ∈ b.backwards := by
    rw [hsplit]
    simp
  rcases b.entering hs with ⟨hunread, -⟩ | ⟨arrived, harrived, hsum⟩
  · exact b.agree_exit hsound hexit (b.mem_exits.mpr ⟨hs, hunread⟩)
  -- A flow that is read is no exit.
  · have hne : Source.flow s.id ≠ .flow exit.id := by
      intro heq
      rw [heq, (places_flow_eq_nil_iff hsound).mpr (b.mem_exits.mp hexit).2, List.map_nil,
        List.map_eq_nil_iff] at harrived
      exact hsum.ne_nil harrived
    refine b.agree_source hsound hexit hne ?_ harrived hsum
    intro place hplace
    rw [← b.places_eq] at hplace
    obtain ⟨reader, hreader, hid⟩ :=
      List.mem_map.mp (b.routed.earlier done s rest hsplit place hplace)
    refine ⟨reader, ?_, hid, hdone reader hreader⟩
    rw [hsplit]
    exact List.mem_append_left _ hreader

/-- The gradient of the output of every flow agrees with the document.  The induction is on the
part of the walk that is done. -/
theorem agree_done (b : TapeBuild g g' t t' answers)
    (hsound : Sound g.rawInputs.length g.flows) {exit : BackwardStep} (hexit : exit ∈ b.exits)
    (done : List BackwardStep) : ∀ rest, b.backwards = done ++ rest → ∀ s ∈ done,
      g.Agree (appended t t') exit.id exit.entering s.entering (.flow s.id) := by
  induction done using List.reverseRecOn with
  | nil => simp
  | append_singleton done s ih =>
    intro rest hsplit
    rw [List.append_assoc, List.singleton_append] at hsplit
    have hdone := ih (s :: rest) hsplit
    intro other hother
    rcases List.mem_append.mp hother with hother | hother
    · exact hdone other hother
    · rw [List.mem_singleton.mp hother]
      exact b.agree_next hsound hexit hsplit hdone

/-- The gradient of a raw input is the sum of what its readers hand out. -/
theorem isSum_raw (b : TapeBuild g g' t t' answers) {slot : Nat} {gradient : Handle}
    (h : answers[slot]? = some (some gradient)) :
    ∃ arrived, arrived.map some = (g.places (.raw slot)).map (fun place =>
      g'.inputGradient? place.1 place.2) ∧ IsSum (appended t t') arrived gradient := by
  have hlt : slot < b.built.rawInputs.length := by
    rw [← b.routed.length_answers]
    exact (List.getElem?_eq_some_iff.mp h).1
  have hcall : .accumulation (arrived b.backwards (.raw slot)) gradient ∈ b.calls := by
    rw [b.routed.calls]
    apply List.mem_append_right
    refine List.mem_flatMap.mpr ⟨(slot, some gradient), ?_, List.mem_singleton_self _⟩
    refine List.mem_iff_getElem?.mpr ⟨slot, ?_⟩
    rw [List.getElem?_zip_eq_some]
    exact ⟨List.getElem?_range hlt, h⟩
  refine ⟨_, b.arrived_eq (.raw slot), ?_⟩
  -- An input that no flow reads has no gradient.
  have hne : arrived b.backwards (.raw slot) ≠ [] := by
    intro hnil
    have hunread := b.routed.arrived (.raw slot)
    rw [hnil, List.map_nil, eq_comm, List.map_eq_nil_iff,
      places_eq_nil_iff b.wellFormed.sound] at hunread
    have hnone := (b.routed.answers slot).mpr ⟨hlt, hunread⟩
    rw [h] at hnone
    cases hnone
  have hsum := isSum_of_call hcall (b.shared _ hcall) hne
  exact hsum.mono (b.records_subset (List.Subset.refl _))

theorem agree_raw (b : TapeBuild g g' t t' answers) (hsound : Sound g.rawInputs.length g.flows)
    {exit : BackwardStep} (hexit : exit ∈ b.exits) {slot : Nat} {gradient : Handle}
    (h : answers[slot]? = some (some gradient)) :
    g.Agree (appended t t') exit.id exit.entering gradient (.raw slot) := by
  obtain ⟨arrived, harrived, hsum⟩ := b.isSum_raw h
  refine b.agree_source hsound hexit (by simp) (fun place hplace => ?_) harrived hsum
  obtain ⟨f, hf, -⟩ := (mem_places hsound).mp hplace
  have hlength : b.built.flows.length = g.flows.length := by
    rw [← List.length_map Flow.inputs, b.inputs, List.length_map]
  have hid : place.1 ∈ b.backwards.map BackwardStep.id := by
    rw [b.routed.every, hlength]
    exact (List.getElem?_eq_some_iff.mp hf).1
  obtain ⟨reader, hreader, heq⟩ := List.mem_map.mp hid
  -- At the end of the walk everything is done.
  have hall := b.agree_done hsound hexit b.backwards [] (List.append_nil _).symm
  exact ⟨reader, hreader, heq, hall reader hreader⟩

end TapeBuild

/-! ## The chain rule -/

/-- The output of a flow, once it is built. -/
def outputOf (g : Graph) (id : Nat) : Option Handle := g.flows[id]?.bind Flow.outputHandle?

/-- The ways from the gradient of a raw input, if it has one, to a seed. -/
def answerPaths (records : List (Handle × Instruction)) (answer : Option Handle) (seed : Handle) :
    Set (List Nat) :=
  {labels | ∃ gradient, answer = some gradient ∧ labels ∈ gradientPaths records gradient seed}

/-- The gradients on the tape follow the chain rule.  `seeds` are the flows that nothing reads,
with their seeds. -/
structure ChainRule (g g' : Graph) (t t' : Tape) (answers : List (Option Handle))
    (seeds : List (Nat × Handle)) : Prop where
  /-- Each flow that nothing reads has one seed, in the order of the walk. -/
  exits : seeds.map Prod.fst =
    g.references.order.reverse.filter fun id => (g.consumers id).isEmpty
  once : (seeds.map Prod.fst).Nodup
  every : ∀ id, id ∈ seeds.map Prod.fst ↔ id < g.size ∧ g.consumers id = []
  /-- There are no other seeds, and each of them is for the output of its flow. -/
  seeded : ((appended t t').filterMap seedOf).map (fun entry => (entry.1, some entry.2)) =
    seeds.map fun entry => (entry.2, g'.outputOf entry.1)
  /-- There is an answer for each raw input; it is empty exactly if no flow reads the input. -/
  length_answers : answers.length = g.rawInputs.length
  unread : ∀ slot, answers[slot]? = some none ↔
    slot < g.rawInputs.length ∧ ∀ f ∈ g.flows, Source.raw slot ∉ f.inputs
  /-- The ways from the gradient of a raw input to a seed are as many as the ways in the document
  from the flow of the seed down to the input. -/
  paths : ∀ slot answer, answers[slot]? = some answer → ∀ entry ∈ seeds,
    ∃ n, Counts (answerPaths (appended t t') answer entry.2) n ∧
      Counts (g.referencePaths entry.1 (.raw slot)) n
  /-- So the gradient of a raw input depends on the seeds of the flows that lead down to it. -/
  depends : ∀ slot answer, answers[slot]? = some answer → ∀ entry ∈ seeds,
    ((answerPaths (appended t t') answer entry.2).Nonempty ↔
      (g.referencePaths entry.1 (.raw slot)).Nonempty)

namespace TapeBuild

variable {g g' : Graph} {t t' : Tape} {answers : List (Option Handle)}

/-- The flows that nothing reads, with their seeds. -/
def seeds (b : TapeBuild g g' t t' answers) : List (Nat × Handle) :=
  b.exits.map fun s => (s.id, s.entering)

theorem map_fst_seeds (b : TapeBuild g g' t t' answers) : b.seeds.map Prod.fst =
    g.references.order.reverse.filter fun id => (g.consumers id).isEmpty := by
  rw [← b.references_eq, ← b.routed.order, List.filter_map, seeds, List.map_map]
  rfl

theorem unread_iff (b : TapeBuild g g' t t' answers) (hsound : Sound g.rawInputs.length g.flows)
    (slot : Nat) : answers[slot]? = some none ↔
      slot < g.rawInputs.length ∧ ∀ f ∈ g.flows, Source.raw slot ∉ f.inputs := by
  rw [b.routed.answers, ← places_eq_nil_iff b.wellFormed.sound, b.places_eq,
    places_eq_nil_iff hsound, b.rawInputs]

theorem outputOf_eq (b : TapeBuild g g' t t' answers) {s : BackwardStep}
    (hs : s ∈ b.backwards) : g'.outputOf s.id = some s.forward.output := by
  obtain ⟨-, hafter, -⟩ := b.routed.built s hs
  rw [outputOf, hafter]
  rfl

theorem counts_answer (b : TapeBuild g g' t t' answers)
    (hsound : Sound g.rawInputs.length g.flows) {slot : Nat} {answer : Option Handle}
    (h : answers[slot]? = some answer) {entry : Nat × Handle} (hentry : entry ∈ b.seeds) :
    ∃ n, Counts (answerPaths (appended t t') answer entry.2) n ∧
      Counts (g.referencePaths entry.1 (.raw slot)) n := by
  obtain ⟨exit, hexit, rfl⟩ := List.mem_map.mp hentry
  cases answer with
  -- No gradient, and nothing above the input: no ways on either side.
  | none =>
    have hempty : answerPaths (appended t t') none exit.entering = ∅ := by
      ext labels
      simp [answerPaths]
    have hunread := ((b.unread_iff hsound slot).mp h).2
    have hplaces := (places_eq_nil_iff hsound).mpr hunread
    refine ⟨0, ?_, counts_reverse (counts_readerPaths_of_unread hsound (by simp) hplaces)⟩
    rw [hempty]
    exact .empty
  | some gradient =>
    obtain ⟨n, hgradient, hreaders⟩ := b.agree_raw hsound hexit h
    have hsame : answerPaths (appended t t') (some gradient) exit.entering =
        gradientPaths (appended t t') gradient exit.entering := by
      ext labels
      simp [answerPaths]
    refine ⟨n, ?_, counts_reverse hreaders⟩
    rw [hsame]
    exact hgradient

theorem chainRule (b : TapeBuild g g' t t' answers) (hsound : Sound g.rawInputs.length g.flows) :
    ChainRule g g' t t' answers b.seeds where
  exits := b.map_fst_seeds
  once := by
    rw [b.map_fst_seeds]
    exact (List.nodup_reverse.mpr (References.order_nodup g.references)).filter _
  every id := by
    rw [b.map_fst_seeds, List.mem_filter, List.mem_reverse, mem_order_iff hsound,
      List.isEmpty_iff]
  seeded := by
    rw [b.seeds_eq, List.map_map, seeds, List.map_map]
    apply List.map_congr_left
    intro s hs
    show (s.entering, some s.forward.output) = (s.entering, g'.outputOf s.id)
    rw [b.outputOf_eq (b.mem_exits.mp hs).1]
  length_answers := by rw [b.routed.length_answers, b.rawInputs]
  unread := b.unread_iff hsound
  paths slot answer h entry hentry := b.counts_answer hsound h hentry
  depends slot answer h entry hentry := by
    obtain ⟨n, hanswer, hreference⟩ := b.counts_answer hsound h hentry
    rw [hanswer.nonempty_iff, hreference.nonempty_iff]

end TapeBuild

/-- The gradients of a complete build on the tape follow the chain rule. -/
theorem buildAll_chainRule {s s' : Graph × Tape} (h : s.1.Reachable) {raw : List Handle}
    {build : GraphBuild} (hrun : (buildAll raw).Yields s build s') :
    ∃ seeds, ChainRule s.1 s'.1 s.2 s'.2 build.rawInputGradients seeds := by
  obtain ⟨b⟩ := h.tapeBuild hrun
  exact ⟨b.seeds, b.chainRule h.wellFormed.sound⟩

/-- Two ways lead from the last flow of the document down to its raw input. -/
theorem counts_diamond : Counts (diamond.referencePaths 3 (.raw 0)) 2 := by
  have hsound : Sound diamond.rawInputs.length diamond.flows := sound_diamond
  -- A source with one reader is reached as its reader is.
  have hread : ∀ (source : Source) (place : Nat × Nat), source ≠ .flow 3 →
      diamond.places source = [place] → ∀ n, Counts (diamond.readerPaths 3 (.flow place.1)) n →
      Counts (diamond.readerPaths 3 source) n := by
    intro source place hne hplaces n hreader
    have hcounts : List.Forall₂ (fun (place : Nat × Nat) n =>
        Counts (diamond.readerPaths 3 (.flow place.1)) n) (diamond.places source) [n] := by
      rw [hplaces]
      exact .cons hreader .nil
    exact counts_readerPaths hsound hne hcounts
  have hlast : Counts (diamond.readerPaths 3 (.flow 3)) 1 :=
    counts_readerPaths_self hsound (by decide +kernel)
  have hleft : Counts (diamond.readerPaths 3 (.flow 1)) 1 :=
    hread _ (3, 0) (by simp) (by decide +kernel) 1 hlast
  have hright : Counts (diamond.readerPaths 3 (.flow 2)) 1 :=
    hread _ (3, 1) (by simp) (by decide +kernel) 1 hlast
  -- The shared flow has two readers, and the ways add up.
  have htrunk : Counts (diamond.readerPaths 3 (.flow 0)) 2 := by
    have hplaces : diamond.places (.flow 0) = [(2, 0), (1, 0)] := by decide +kernel
    have hcounts : List.Forall₂ (fun (place : Nat × Nat) n =>
        Counts (diamond.readerPaths 3 (.flow place.1)) n) (diamond.places (.flow 0)) [1, 1] := by
      rw [hplaces]
      exact .cons hright (.cons hleft .nil)
    exact counts_readerPaths hsound (by simp) hcounts
  exact counts_reverse (hread _ (0, 0) (by simp) (by decide +kernel) 2 htrunk)

/-- So the gradient of the raw input depends on the only seed in two ways. -/
theorem buildAll_chainRule_diamond : ∃ seeds,
    ChainRule diamond diamondBuild.state.1 diamondTape diamondBuild.state.2 [some ⟨13⟩] seeds ∧
      ∃ seed, (3, seed) ∈ seeds ∧
        Counts (answerPaths (appended diamondTape diamondBuild.state.2) (some ⟨13⟩) seed) 2 := by
  obtain ⟨seeds, hrule⟩ := buildAll_chainRule reachable_diamond yields_diamondBuild
  have hexit : 3 ∈ seeds.map Prod.fst := (hrule.every 3).mpr (by decide +kernel)
  obtain ⟨⟨id, seed⟩, hseed, rfl⟩ := List.mem_map.mp hexit
  obtain ⟨n, hanswer, hreference⟩ := hrule.paths 0 _ rfl _ hseed
  refine ⟨seeds, hrule, seed, hseed, ?_⟩
  rw [← counts_diamond.ncard, hreference.ncard]
  exact hanswer

end LayerFlow.Graph
