/-
LayerFlow.Proofs.Graph.Identity

References count positions, and edits move flows to other positions.  To say that a reference
keeps its flow all the same, every flow gets a tag when it enters the document, and the document
is read with the tags in place of the numbers.  Read so, an edit changes the flow that it names
and no other one: nothing is renumbered.

Main statements: `roster_change`, what one edit does to the document read by tags, and
`edits_keep_references`, the same along every history of edits.
-/
import LayerFlow.Proofs.Graph.Edits

namespace LayerFlow

open Op

/-! ## Documents read by tags -/

/-- What a source stands for: a slot, or the flow with a tag.  A reference to a flow that does not
exist has no tag. -/
inductive Target where
  | raw (slot : Nat)
  | flow (tag : Option Nat)
deriving DecidableEq

/-- What a source stands for if the flows have the given tags, by position. -/
def Target.of (tags : List Nat) : Source → Target
  | .raw slot => .raw slot
  | .flow id => .flow tags[id]?

/-- A flow as the document has it: its tag, its label, its layers with their parameters, and what
it reads in order. -/
structure Entry where
  tag : Nat
  label : String
  layers : List Layer
  targets : List Target
deriving DecidableEq

namespace Entry

/-- The entry of a flow. -/
def of (tags : List Nat) (tag : Nat) (f : Flow) : Entry :=
  ⟨tag, f.label, f.layers, f.inputs.map (Target.of tags)⟩

/-- The entry with some other targets. -/
def withTargets (entry : Entry) (targets : List Target) : Entry := { entry with targets := targets }

end Entry

/-- The entries of flows with the given tags. -/
def roster (tags : List Nat) (flows : List Flow) : List Entry :=
  List.zipWith (Entry.of tags) tags flows

namespace Edit

/-- The tags after an edit; a flow that enters gets a fresh one. -/
def retag (fresh : Nat) (tags : List Nat) : Edit → List Nat
  | .addFlow _ => tags ++ [fresh]
  | .insertFlow index _ => tags.insertIdx index fresh
  | .removeFlow id => tags.eraseIdx id
  | .duplicateFlow id => tags.insertIdx (id + 1) fresh
  | .addInputSource _ _ | .removeInputSource _ _ | .addRawInput _ | .setRawInput _ _ => tags

/-- What an edit does to the entries.  The references of a flow or source that is added are read
in the numbering before the edit; a reference is lost if its flow is removed, or if it is the one
that the edit names. -/
def follow (fresh : Nat) (entries : List Entry) : Edit → List Entry
  | .addFlow f => entries ++ [.of (entries.map Entry.tag) fresh f]
  | .insertFlow index f => entries.insertIdx index (.of (entries.map Entry.tag) fresh f)
  | .removeFlow id => (entries.eraseIdx id).map fun entry =>
    entry.withTargets (entry.targets.filter (· ≠ .flow (entries.map Entry.tag)[id]?))
  | .duplicateFlow id =>
    match entries[id]? with
    | some entry => entries.insertIdx (id + 1)
      { entry with tag := fresh, label := entry.label ++ " copy" }
    | none => entries
  | .addInputSource id source => entries.modify id fun entry =>
    entry.withTargets (entry.targets ++ [.of (entries.map Entry.tag) source])
  | .removeInputSource id index => entries.modify id fun entry =>
    entry.withTargets (entry.targets.eraseIdx index)
  | .addRawInput _ | .setRawInput _ _ => entries

end Edit

/-! ## Two lists side by side -/

section

variable {α β γ : Type} {f : α → β → γ}

theorem zipWith_insertIdx {as : List α} {bs : List β} (h : as.length = bs.length) (i : Nat)
    (a : α) (b : β) : List.zipWith f (as.insertIdx i a) (bs.insertIdx i b) =
      (List.zipWith f as bs).insertIdx i (f a b) := by
  induction i generalizing as bs with
  | zero => simp
  | succ i ih =>
    cases as with
    | nil => cases bs <;> simp_all
    | cons first as =>
      cases bs with
      | nil => simp at h
      | cons first' bs => simp [ih (Nat.succ.inj h)]

theorem zipWith_eraseIdx (as : List α) (bs : List β) (i : Nat) :
    List.zipWith f (as.eraseIdx i) (bs.eraseIdx i) = (List.zipWith f as bs).eraseIdx i := by
  induction i generalizing as bs with
  | zero => cases as <;> cases bs <;> simp
  | succ i ih =>
    cases as with
    | nil => simp
    | cons first as =>
      cases bs with
      | nil => simp
      | cons first' bs => simp [ih]

theorem zipWith_modify {change : β → β} {change' : γ → γ}
    (h : ∀ a b, f a (change b) = change' (f a b)) (as : List α) (bs : List β) (i : Nat) :
    List.zipWith f as (bs.modify i change) = (List.zipWith f as bs).modify i change' := by
  induction i generalizing as bs with
  | zero => cases as <;> cases bs <;> simp [h]
  | succ i ih =>
    cases as with
    | nil => simp
    | cons first as =>
      cases bs with
      | nil => simp
      | cons first' bs => simp [ih]

end

/-! ## References under renumbering -/

section

variable {tags : List Nat} {flows : List Flow}

theorem map_tag_roster (h : tags.length = flows.length) :
    (roster tags flows).map Entry.tag = tags := by
  rw [roster, List.map_zipWith]
  show List.zipWith (fun tag _ => tag) tags flows = tags
  induction tags generalizing flows with
  | nil => rfl
  | cons tag tags ih =>
    cases flows with
    | nil => simp at h
    | cons f flows => rw [List.zipWith_cons_cons, ih (Nat.succ.inj h)]

theorem getElem?_roster {id : Nat} {tag : Nat} {f : Flow} (htag : tags[id]? = some tag)
    (hf : flows[id]? = some f) : (roster tags flows)[id]? = some (.of tags tag f) := by
  rw [roster, List.getElem?_zipWith, htag, hf]

/-- A renumbered reference finds its flow where an insertion moved it to. -/
theorem of_insertIdx (index fresh : Nat) (s : Source) :
    Target.of (tags.insertIdx index fresh) (s.renumber (placeAfter index)) =
      Target.of tags s := by
  cases s with
  | raw slot => rfl
  | flow id => exact congrArg Target.flow (getElem?_insertIdx_placeAfter tags index id fresh)

/-- A renumbered reference finds its flow where a removal moved it to. -/
theorem of_eraseIdx {id : Nat} {s : Source} (hs : s.flow? ≠ some id) :
    Target.of (tags.eraseIdx id)
      (s.renumber fun other => if id < other then other - 1 else other) = Target.of tags s := by
  cases s with
  | raw slot => rfl
  | flow other =>
    have hne : other ≠ id := by simpa [Source.flow?] using hs
    simp only [Source.renumber, Target.of, Target.flow.injEq]
    by_cases hlt : id < other
    · rw [if_pos hlt, List.getElem?_eraseIdx_of_ge (by omega), Nat.sub_add_cancel (by omega)]
    · rw [if_neg hlt, List.getElem?_eraseIdx_of_lt (by omega)]

/-- As no two flows share a tag, the references to a flow are those with its tag. -/
theorem of_eq_iff (hnodup : tags.Nodup) {id : Nat} (hid : id < tags.length) (s : Source) :
    Target.of tags s = .flow tags[id]? ↔ s.flow? = some id := by
  cases s with
  | raw slot => simp [Target.of, Source.flow?]
  | flow other =>
    rw [Target.of, Target.flow.injEq, Source.flow?, Option.some.injEq]
    exact ⟨fun h => ((List.getElem?_inj hid hnodup).mp h.symm).symm, fun h => by rw [h]⟩

theorem of_append {rawCount : Nat} {s : Source} (hs : s.Exists rawCount tags.length)
    (fresh : Nat) : Target.of (tags ++ [fresh]) s = Target.of tags s := by
  cases s with
  | raw slot => rfl
  | flow id => exact congrArg Target.flow (List.getElem?_append_left hs)

/-- What is left of the references of a flow after a removal. -/
theorem map_of_dropSource (hnodup : tags.Nodup) {id : Nat} (hid : id < tags.length)
    (inputs : List Source) : (Graph.dropSource id inputs).map (Target.of (tags.eraseIdx id)) =
      (inputs.map (Target.of tags)).filter (· ≠ .flow tags[id]?) := by
  rw [Graph.dropSource, List.map_map, List.filter_map]
  -- The same references are kept on both sides, and each of them finds its flow.
  have hkept : inputs.filter ((fun target => decide (target ≠ .flow tags[id]?)) ∘ Target.of tags) =
      inputs.filter fun s => s.flow? ≠ some id := by
    apply List.filter_congr
    intro s _
    simp only [Function.comp_apply, ne_eq, of_eq_iff hnodup hid]
  rw [hkept]
  apply List.map_congr_left
  intro s hs
  exact of_eraseIdx (by simpa using (List.mem_filter.mp hs).2)

/-! ## One edit -/

theorem roster_reset : roster tags (flows.map Flow.reset) = roster tags flows := by
  rw [roster, List.zipWith_map_right]
  rfl

/-- Entries do not change with the tags as long as the references find the same flows. -/
theorem zipWith_of_congr {tags' : List Nat} (names : List Nat)
    (h : ∀ f ∈ flows, ∀ s ∈ f.inputs, Target.of tags' s = Target.of tags s) :
    List.zipWith (Entry.of tags') names flows = List.zipWith (Entry.of tags) names flows := by
  induction flows generalizing names with
  | nil => simp
  | cons f flows ih =>
    cases names with
    | nil => rfl
    | cons name names =>
      rw [List.forall_mem_cons] at h
      rw [List.zipWith_cons_cons, List.zipWith_cons_cons, ih names h.2, Entry.of,
        List.map_congr_left h.1, ← Entry.of]

theorem of_shifted (index fresh tag : Nat) (f : Flow) :
    Entry.of (tags.insertIdx index fresh) tag (f.shifted index) = Entry.of tags tag f := by
  rw [Entry.of, Flow.shifted, Flow.inputs_withInputs, List.map_map]
  simp only [Function.comp_def, of_insertIdx]
  rfl

/-- An insertion moves flows, but seen by tags it only adds one. -/
theorem roster_insertIdx (hlength : tags.length = flows.length) (index fresh : Nat) (f : Flow) :
    roster (tags.insertIdx index fresh) ((flows.insertIdx index f).map (Flow.shifted index)) =
      (roster tags flows).insertIdx index (.of tags fresh f) := by
  rw [roster, List.zipWith_map_right]
  simp only [of_shifted]
  exact zipWith_insertIdx hlength index fresh f

/-- A removal moves flows, but seen by tags it only takes the flow away and what referred to it. -/
theorem roster_eraseIdx (hnodup : tags.Nodup) {id : Nat} (hid : id < tags.length) :
    roster (tags.eraseIdx id) ((flows.eraseIdx id).map fun f =>
        f.withInputs (Graph.dropSource id f.inputs)) =
      ((roster tags flows).eraseIdx id).map fun entry =>
        entry.withTargets (entry.targets.filter (· ≠ .flow tags[id]?)) := by
  rw [roster, roster, ← zipWith_eraseIdx, List.zipWith_map_right, List.map_zipWith]
  congr 1
  funext tag f
  rw [Entry.of, Flow.inputs_withInputs, map_of_dropSource hnodup hid]
  rfl

theorem map_eraseIdx {α β : Type} (f : α → β) (xs : List α) (i : Nat) :
    (xs.eraseIdx i).map f = (xs.map f).eraseIdx i := by
  simp [List.eraseIdx_eq_take_drop_succ, List.map_take, List.map_drop]

/-- A flow that is added at the end reads earlier flows only, or it would read itself. -/
theorem inputs_of_sound_append {rawCount : Nat} {f : Flow}
    (h : Graph.Sound rawCount (flows ++ [f])) :
    ∀ s ∈ f.inputs, s.Exists rawCount flows.length := by
  intro s hs
  have hexists := h.sources f (by simp) s hs
  cases s with
  | raw slot => exact hexists
  | flow id =>
    have hle : id ≤ flows.length := by
      rw [List.length_append] at hexists
      exact Nat.lt_succ_iff.mp hexists
    refine Nat.lt_of_le_of_ne hle fun heq => h.acyclic id ?_
    exact .single (Graph.reads_iff.mpr ⟨f, by rw [heq]; simp, hs⟩)

/-- What one edit does to the document read by tags. -/
theorem roster_change {e : Edit} {rawCount rawCount' fresh : Nat}
    (hlength : tags.length = flows.length) (hnodup : tags.Nodup) (happlies : e.Applies flows.length)
    (hsound : Graph.Sound rawCount flows) (hsound' : Graph.Sound rawCount' (e.change flows)) :
    roster (e.retag fresh tags) (e.change flows) = e.follow fresh (roster tags flows) := by
  have htags := map_tag_roster hlength
  cases e with
  | addFlow f =>
    have hold : ∀ f ∈ flows, ∀ s ∈ f.inputs, Target.of (tags ++ [fresh]) s = Target.of tags s :=
      fun f hf s hs => of_append (hlength ▸ hsound.sources f hf s hs) fresh
    have hnew : ∀ s ∈ f.inputs, Target.of (tags ++ [fresh]) s = Target.of tags s :=
      fun s hs => of_append (hlength ▸ inputs_of_sound_append hsound' s hs) fresh
    rw [Edit.follow, htags, Edit.retag, Edit.change, roster, List.zipWith_append hlength,
      zipWith_of_congr _ hold, ← roster]
    simp only [List.zipWith_cons_cons, List.zipWith_nil_left, Entry.of, List.map_congr_left hnew]
  | insertFlow index f =>
    rw [Edit.follow, htags]
    exact roster_insertIdx hlength index fresh f
  | removeFlow id =>
    rw [Edit.follow, htags]
    exact roster_eraseIdx hnodup (hlength ▸ happlies)
  | duplicateFlow id =>
    obtain ⟨f, hf⟩ : ∃ f, flows[id]? = some f := ⟨_, List.getElem?_eq_getElem happlies⟩
    obtain ⟨tag, htag⟩ : ∃ tag, tags[id]? = some tag :=
      ⟨_, List.getElem?_eq_getElem (hlength ▸ happlies)⟩
    rw [Edit.follow, getElem?_roster htag hf, Edit.change, hf]
    exact roster_insertIdx hlength (id + 1) fresh f.copy
  | addInputSource id source =>
    rw [Edit.follow, htags]
    refine zipWith_modify (fun tag f => ?_) tags flows id
    rw [Entry.of, Flow.inputs_withInputs, List.map_append]
    rfl
  | removeInputSource id index =>
    refine zipWith_modify (fun tag f => ?_) tags flows id
    rw [Entry.of, Flow.inputs_withInputs, map_eraseIdx]
    rfl
  | addRawInput shape => rfl
  | setRawInput slot shape => rfl

end

/-! ## Tags -/

namespace Edit

variable {e : Edit} {fresh : Nat} {tags : List Nat}

theorem length_retag {flows : List Flow} (hlength : tags.length = flows.length)
    (happlies : e.Applies flows.length) :
    (e.retag fresh tags).length = (e.change flows).length := by
  cases e with
  | addFlow f => simp [retag, change, hlength]
  | insertFlow index f => simp [retag, change, List.length_insertIdx, hlength]
  | removeFlow id => simp [retag, change, List.length_eraseIdx, hlength]
  | duplicateFlow id =>
    rw [change, List.getElem?_eq_getElem happlies]
    simp [retag, List.length_insertIdx, hlength]
  | addInputSource id source => simp [retag, change, hlength]
  | removeInputSource id index => simp [retag, change, hlength]
  | addRawInput shape => exact hlength
  | setRawInput slot shape => exact hlength

theorem eq_or_mem_of_mem_retag {tag : Nat} (h : tag ∈ e.retag fresh tags) :
    tag = fresh ∨ tag ∈ tags := by
  cases e with
  | addFlow f => simpa [retag, or_comm] using h
  | insertFlow index f => exact List.eq_or_mem_of_mem_insertIdx h
  | removeFlow id => exact .inr (List.mem_of_mem_eraseIdx h)
  | duplicateFlow id => exact List.eq_or_mem_of_mem_insertIdx h
  | addInputSource id source => exact .inr h
  | removeInputSource id index => exact .inr h
  | addRawInput shape => exact .inr h
  | setRawInput slot shape => exact .inr h

theorem nodup_insertIdx (hnodup : tags.Nodup) (hfresh : fresh ∉ tags) {index : Nat}
    (hindex : index ≤ tags.length) : (tags.insertIdx index fresh).Nodup :=
  (List.perm_insertIdx fresh tags hindex).nodup_iff.mpr (List.nodup_cons.mpr ⟨hfresh, hnodup⟩)

theorem nodup_retag (hnodup : tags.Nodup) (hfresh : fresh ∉ tags)
    (happlies : e.Applies tags.length) : (e.retag fresh tags).Nodup := by
  cases e with
  | addFlow f => exact List.nodup_append_comm.mp (List.nodup_cons.mpr ⟨hfresh, hnodup⟩)
  | insertFlow index f => exact nodup_insertIdx hnodup hfresh happlies
  | removeFlow id => exact hnodup.eraseIdx id
  | duplicateFlow id => exact nodup_insertIdx hnodup hfresh happlies
  | addInputSource id source => exact hnodup
  | removeInputSource id index => exact hnodup
  | addRawInput shape => exact hnodup
  | setRawInput slot shape => exact hnodup

end Edit

/-! ## Histories of edits -/

/-- A graph whose flows have tags. -/
structure Tagged where
  graph : Graph
  tags : List Nat
  /-- The next tag to be given out. -/
  next : Nat

namespace Tagged

/-- The document of the graph, read by tags. -/
def entries (s : Tagged) : List Entry := roster s.tags s.graph.flows

/-- The graph after a call, and the tags that follow the flows. -/
def apply (s : Tagged) (e : Edit) : Tagged :=
  let out := e.run.run s.graph
  match out.result with
  | .ok _ => ⟨out.state, e.retag s.next s.tags, s.next + 1⟩
  | .error _ => ⟨out.state, s.tags, s.next⟩

/-- Every flow has a tag of its own, and the next tag was never given out. -/
structure Unique (s : Tagged) : Prop where
  length : s.tags.length = s.graph.size
  nodup : s.tags.Nodup
  fresh : ∀ tag ∈ s.tags, tag < s.next

/-- The tags are in order, and so is the document. -/
structure Tidy (s : Tagged) : Prop where
  unique : s.Unique
  sound : Graph.Sound s.graph.rawInputs.length s.graph.flows

variable {s : Tagged} {e : Edit}

theorem apply_of_yields {g' : Graph} (h : e.run.Yields s.graph () g') :
    s.apply e = ⟨g', e.retag s.next s.tags, s.next + 1⟩ := by
  rw [apply, h.1, h.2]

theorem apply_of_fails {g' : Graph} {err : Failure} (h : e.run.Fails s.graph err g') :
    s.apply e = s := by
  rw [apply, h.1, h.2, Edit.eq_of_fails h]

theorem Unique.retag {g' : Graph} (h : s.Unique) (hedited : e.Edited s.graph g') :
    Unique ⟨g', e.retag s.next s.tags, s.next + 1⟩ where
  length := by
    show _ = g'.flows.length
    rw [hedited.flows, List.length_map]
    exact Edit.length_retag h.length hedited.applies
  nodup := by
    refine Edit.nodup_retag h.nodup (fun hmem => ?_) (h.length ▸ hedited.applies)
    exact Nat.lt_irrefl _ (h.fresh _ hmem)
  fresh tag htag := by
    rcases Edit.eq_or_mem_of_mem_retag htag with rfl | hold
    · exact Nat.lt_succ_self _
    · exact Nat.lt_succ_of_lt (h.fresh tag hold)

theorem Tidy.apply (h : s.Tidy) (e : Edit) : (s.apply e).Tidy := by
  rcases yields_or_fails e.run s.graph with ⟨_, hyields⟩ | ⟨err, hfails⟩
  · have hedited := Edit.edited_of_yields hyields
    rw [apply_of_yields hyields]
    exact ⟨h.unique.retag hedited, hedited.sound h.sound⟩
  · rw [apply_of_fails hfails]
    exact h

theorem Tidy.foldl (h : s.Tidy) (history : List Edit) : (history.foldl Tagged.apply s).Tidy := by
  induction history generalizing s with
  | nil => exact h
  | cons e history ih => exact ih (h.apply e)

/-- Every reference of a tidy graph points at a flow. -/
theorem Tidy.flow_none_not_mem (h : s.Tidy) :
    ∀ entry ∈ s.entries, Target.flow none ∉ entry.targets := by
  intro entry hentry hmem
  rw [entries, roster, ← List.map_uncurry_zip_eq_zipWith] at hentry
  obtain ⟨⟨tag, f⟩, hzip, rfl⟩ := List.mem_map.mp hentry
  obtain ⟨source, hsource, hnone⟩ := List.mem_map.mp hmem
  have hexists := h.sound.sources f (List.of_mem_zip hzip).2 source hsource
  cases source with
  | raw slot => cases hnone
  | flow id =>
    have hle := List.getElem?_eq_none_iff.mp (Target.flow.inj hnone)
    rw [h.unique.length] at hle
    exact absurd hexists (Nat.not_lt.mpr hle)

/-- An edit that is accepted does to the entries what it says. -/
theorem Tidy.entries_apply (h : s.Tidy) {g' : Graph} (hyields : e.run.Yields s.graph () g') :
    (s.apply e).entries = e.follow s.next s.entries := by
  have hedited := Edit.edited_of_yields hyields
  have hsound := hedited.sound h.sound
  rw [hedited.flows] at hsound
  have hchange : Graph.Sound g'.rawInputs.length (e.change s.graph.flows) := by
    refine hsound.congr ?_
    rw [List.map_map]
    rfl
  rw [apply_of_yields hyields, entries, hedited.flows, roster_reset]
  exact roster_change h.unique.length h.unique.nodup hedited.applies h.sound hchange

end Tagged

/-- Every reference keeps its flow through every history of edits.  After an edit that is accepted,
the document read by tags is the one before with the change that the edit names and no other; an
edit that is refused leaves everything as it was.  Tags stay unique and no reference is left
without a flow. -/
theorem edits_keep_references {s : Tagged} (hreach : s.graph.Reachable) (hunique : s.Unique)
    (history : List Edit) (e : Edit) :
    let before := history.foldl Tagged.apply s
    let after := before.apply e
    (∀ a, (e.run.run before.graph).result = .ok a →
        after.entries = e.follow before.next before.entries) ∧
      (∀ err, (e.run.run before.graph).result = .error err → after = before) ∧
      after.Unique ∧ ∀ entry ∈ after.entries, Target.flow none ∉ entry.targets := by
  intro before after
  have hbefore : before.Tidy := Tagged.Tidy.foldl ⟨hunique, hreach.wellFormed.sound⟩ history
  have hafter : after.Tidy := hbefore.apply e
  refine ⟨fun a ha => ?_, fun err herr => ?_, hafter.unique, hafter.flow_none_not_mem⟩
  · exact hbefore.entries_apply (yields_of_result ha)
  · exact Tagged.apply_of_fails ⟨herr, rfl⟩

/-- Once a flow of the document and then the shared one are removed, the last flow still reads the
same one of the flows that are left, although both have other numbers now. -/
theorem edits_keep_references_diamond :
    let s : Tagged := ⟨Graph.diamond, [0, 1, 2, 3], 4⟩
    let after := (s.apply (.removeFlow 1)).apply (.removeFlow 0)
    after.Unique ∧ after.entries = [
      ⟨2, "right", [.softMax ⟨.logSoftMax⟩], []⟩,
      ⟨3, "join", [.softMax ⟨.softMax⟩], [.flow (some 2)]⟩] := by
  have hunique : Tagged.Unique ⟨Graph.diamond, [0, 1, 2, 3], 4⟩ :=
    ⟨rfl, by decide, by decide⟩
  obtain ⟨haccepted, -, hafter, -⟩ :=
    edits_keep_references Graph.reachable_diamond hunique [.removeFlow 1] (.removeFlow 0)
  exact ⟨hafter, haccepted () rfl⟩

end LayerFlow
