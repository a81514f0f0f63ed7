/-
LayerFlow.Proofs.Graph.History

Histories of a graph: lists of uses, each of which may succeed or fail, from a graph that was made
anew or read.  A use is an edit, a change of the settings, an inference or a build of the whole
graph, or it is work on a single flow that is handed out.

Main statements: `after_reachable`, and `Use.worked`, what a use leaves of every flow unless it
edits the document or infers shapes.
-/
import LayerFlow.Proofs.Flow.History
import LayerFlow.Proofs.Graph.Edits
import LayerFlow.Proofs.Graph.Flowwise

namespace LayerFlow

open Op

/-! ## Work on one flow -/

namespace Flow

/-- Work on a flow that replaces neither sources nor shapes: on its label, its layers or its
nodes. -/
def Use.Plain : Use → Prop
  | .clear | .setInputs _ | .infer _ | .inferAt _ => False
  | _ => True

/-- What plain work leaves of a flow: sources and shapes, and an unbuilt flow stays unbuilt. -/
structure Worked (f f' : Flow) : Prop where
  inputs : f'.inputs = f.inputs
  shapes : f'.shapes = f.shapes
  unbuilt : f.state = .unbuilt → f'.state = .unbuilt

instance : IsPreorder Flow Worked where
  refl _ := ⟨rfl, rfl, fun h => h⟩
  trans _ _ _ h h' :=
    ⟨h'.inputs.trans h.inputs, h'.shapes.trans h.shapes, fun hf => h'.unbuilt (h.unbuilt hf)⟩

theorem worked_withLayers (f : Flow) (layers : List Layer) : Worked f (f.withLayers layers) :=
  ⟨rfl, rfl, fun _ => rfl⟩

variable {β : Type} [Backend β]

/-- An unbuilt flow is not built forward. -/
theorem worked_buildForward (f : Flow) (b : β) (raw : List Handle)
    (outputs : List (Option Handle)) (alignment : Nat) :
    Worked f ((Flow.buildForward raw outputs alignment).run (f, b)).state.1 := by
  have hkept : Kept f ((Flow.buildForward raw outputs alignment).run (f, b)).state.1 :=
    kept_buildForward f raw outputs alignment (f, b) (.refl f)
  refine ⟨hkept.inputs, hkept.shapes, fun hf => ?_⟩
  rcases yields_or_fails (Flow.buildForward raw outputs alignment) (f, b) with
    ⟨output, hyields⟩ | ⟨e, hfails⟩
  · have hstage := (checkForward_of_yields_buildForward hyields).1
    rw [hf] at hstage
    cases hstage
  · rw [state_of_fails_buildForward hfails, hf]

theorem worked_buildBackward (f : Flow) (b : β) (outputGradient : Handle) :
    Worked f ((Flow.buildBackward outputGradient).run (f, b)).state.1 := by
  rcases buildBackward_keeps f b outputGradient with heq | ⟨forward, gradients, hstate, heq⟩
  · rw [heq]
    exact Std.Refl.refl f
  · rw [heq]
    refine ⟨rfl, rfl, fun hf => ?_⟩
    rw [hf] at hstate
    cases hstate

theorem Use.Plain.worked {u : Use} (h : u.Plain) (f : Flow) : Worked f (u.run f) := by
  cases u with
  | rename label => exact ⟨rfl, rfl, fun hf => hf⟩
  | reset => exact ⟨rfl, rfl, fun _ => rfl⟩
  | clear => exact h.elim
  | setInputs inputs => exact h.elim
  | pushLayer l => exact worked_withLayers f _
  | insertLayer index l =>
    rw [Use.run, Flow.insertLayer]
    split
    · exact worked_withLayers f _
    · exact Std.Refl.refl f
  | removeLayer index =>
    rw [Use.run, Flow.removeLayer]
    split
    · exact worked_withLayers f _
    · exact Std.Refl.refl f
  | moveLayer start stop =>
    rw [Use.run]
    cases hmove : f.moveLayer start stop with
    | ok f' =>
      obtain ⟨layers, rfl⟩ := exists_withLayers_of_moveLayer hmove
      exact worked_withLayers f layers
    | error e => exact Std.Refl.refl f
  | modifyLayer index change => exact worked_withLayers f _
  | infer resolve => exact h.elim
  | inferAt answer => exact h.elim
  | buildForward b raw outputs alignment => exact worked_buildForward f b raw outputs alignment
  | buildBackward b outputGradient => exact worked_buildBackward f b outputGradient

theorem Use.Plain.steps {u : Use} (h : u.Plain) (f : Flow) :
    Relation.ReflTransGen Step f (u.run f) := by
  refine Use.steps (fun inputs => ?_) f
  rintro rfl
  exact h

end Flow

/-! ## Uses of a graph -/

/-- Whether the flow that an edit brings in, if it does, has a history of its own. -/
def Edit.Reachable : Edit → Prop
  | .addFlow f | .insertFlow _ f => f.Reachable
  | _ => True

theorem state_discard {ε σ α : Type} (x : Op ε σ α) (s : σ) :
    ((x >>= fun _ => pure ()).run s).state = (x.run s).state := by
  rw [run_bind]
  rcases x.run s with ⟨_ | _, _, _⟩ <;> rfl

theorem Edit.step {e : Edit} (h : e.Reachable) (g : Graph) : Graph.Step g (e.run.run g).state := by
  cases e with
  | addFlow f => exact state_discard (Graph.addFlow f) g ▸ .addFlow g h
  | insertFlow index f => exact state_discard (Graph.insertFlow index f) g ▸ .insertFlow g index h
  | removeFlow id => exact state_discard (Graph.removeFlow id) g ▸ .removeFlow g id
  | duplicateFlow id => exact state_discard (Graph.duplicateFlow id) g ▸ .duplicateFlow g id
  | addInputSource id source => exact .addInputSource g id source
  | removeInputSource id index =>
    exact state_discard (Graph.removeInputSource id index) g ▸ .removeInputSource g id index
  | addRawInput shape => exact state_discard (Graph.addRawInput shape) g ▸ .addRawInput g shape
  | setRawInput slot shape => exact .setRawInput g slot shape

namespace Graph

/-- A use of a graph. -/
inductive Use : Type 1
  | edit (e : Edit) (h : e.Reachable)
  | setConfig (config : Config)
  | verify
  | inferAll
  | buildForwardAll {β : Type} [Backend β] (b : β) (raw : List Handle)
  | buildBackwardAll {β : Type} [Backend β] (b : β)
  | buildAll {β : Type} [Backend β] (b : β) (raw : List Handle)
  /-- Plain work on the flow with an id. -/
  | work (id : Nat) (u : Flow.Use) (h : u.Plain)
  /-- An inference of the flow with an id alone, told the shapes of its sources as the graph knows
  them. -/
  | inferFlow (id : Nat)
  /-- A graph with the record of this one and other settings, if they are accepted. -/
  | reread (config : Config)

namespace Use

/-- What a use leaves of a graph. -/
def run : Use → Graph → Graph
  | .edit e _, g => (e.run.run g).state
  | .setConfig config, g => ((Graph.setConfig config).run g).state
  | .verify, g => (Graph.verify.run g).state
  | .inferAll, g => (Graph.inferAll.run g).state
  | @Use.buildForwardAll _ _ b raw, g => ((Graph.buildForwardAll raw).run (g, b)).state.1
  | @Use.buildBackwardAll _ _ b, g => (Graph.buildBackwardAll.run (g, b)).state.1
  | @Use.buildAll _ _ b raw, g => ((Graph.buildAll raw).run (g, b)).state.1
  | .work id u _, g =>
    ((Graph.editFlow id (Op.modify fun s : Flow × Unit => (u.run s.1, s.2))).run (g, ())).state.1
  | .inferFlow id, g =>
    ((Graph.editFlow id (Op.zoom Prod.fst (fun f (s : Flow × Unit) => (f, s.2))
      (Flow.infer g.resolve))).run (g, ())).state.1
  | .reread config, g => (Graph.ofRecord g.record config).toOption.getD g

/-- Whether a use infers shapes, if only of one flow. -/
def Infers : Use → Prop
  | .inferAll | .inferFlow _ => True
  | @Use.buildAll _ _ _ _ => True
  | _ => False

theorem reachable (u : Use) {g : Graph} (h : g.Reachable) : (u.run g).Reachable := by
  cases u with
  | edit e he => exact h.step (e.step he g)
  | setConfig config => exact h.step (.setConfig g config)
  | verify => exact h.step (.verify g)
  | inferAll => exact h.step (.inferAll g)
  | buildForwardAll b raw => exact h.step (.buildForwardAll g b raw)
  | buildBackwardAll b => exact h.step (.buildBackwardAll g b)
  | buildAll b raw => exact h.step (.buildAll g b raw)
  | work id u hplain => exact h.step (.editFlow g () id _ fun f _ => hplain.steps f)
  | inferFlow id =>
    exact h.step (.editFlow g () id _ fun f _ => .single (Flow.step_infer f g.resolve))
  | reread config =>
    rw [run]
    cases hread : Graph.ofRecord g.record config with
    | error e => exact h
    | ok g' => exact .ofRecord h.wellFormed.flows hread

end Use

/-- The graph after some uses. -/
def after (start : Graph) (uses : List Use) : Graph := uses.foldl (fun g u => u.run g) start

@[simp] theorem after_nil (start : Graph) : start.after [] = start := rfl

@[simp] theorem after_append (start : Graph) (uses more : List Use) :
    start.after (uses ++ more) = (start.after uses).after more := List.foldl_append ..

@[simp] theorem after_singleton (start : Graph) (u : Use) : start.after [u] = u.run start := rfl

theorem Reachable.after {start : Graph} (h : start.Reachable) (uses : List Use) :
    (start.after uses).Reachable := by
  induction uses generalizing start with
  | nil => exact h
  | cons u rest ih => exact ih (u.reachable h)

/-- A graph at the beginning of its history: made anew, or read from a text or from a record whose
flows have no shapes of their own. -/
inductive Begins : Graph → Prop
  | empty {processors : Nat} (h : 1 ≤ processors) : Begins (.empty processors)
  | withConfig {config : Config} {g : Graph} (h : Graph.withConfig config = .ok g) : Begins g
  | ofText {text : String} {config : Config} {g : Graph} (h : Graph.ofText text config = .ok g) :
      Begins g
  | ofRecord {r : Record} {config : Config} {g : Graph}
      (hflows : ∀ f ∈ r.flows, f.Reachable ∧ f.state = .unbuilt)
      (h : Graph.ofRecord r config = .ok g) : Begins g

theorem Begins.reachable {g : Graph} (h : g.Begins) : g.Reachable := by
  cases h with
  | empty hprocessors => exact .empty hprocessors
  | withConfig h => exact .withConfig h
  | ofText h => exact .ofText h
  | ofRecord hflows h => exact .ofRecord (fun f hf => (hflows f hf).1) h

/-- The graph of a record has the raw inputs and the flows of the record, as they are. -/
theorem eq_of_ofRecord {r : Record} {config : Config} {g : Graph}
    (h : Graph.ofRecord r config = .ok g) : g = ⟨r.flows, r.rawInputs, config, none⟩ :=
  (ofRecord_eq_ok_iff.mp h).2.2.2

theorem Begins.unbuilt {g : Graph} (h : g.Begins) : ∀ f ∈ g.flows, f.state = .unbuilt := by
  cases h with
  | empty => simp [Graph.empty]
  | withConfig h =>
    obtain ⟨checked, -, hg⟩ := Traversal.bind_eq_ok_iff.mp h
    rw [Traversal.pure_eq_ok_iff.mp hg]
    simp [Graph.empty]
  | ofText h =>
    obtain ⟨r, hrecord, hfresh⟩ := exists_record_of_ofText h
    rw [eq_of_ofRecord hrecord]
    intro f hf
    obtain ⟨label, inputs, layers, rfl⟩ := hfresh f hf
    rfl
  | ofRecord hflows h =>
    rw [eq_of_ofRecord h]
    exact fun f hf => (hflows f hf).2

/-! ## What uses leave of the flows -/

section

variable {β α : Type} {g : Graph} {id : Nat}

/-- Work on one flow leaves the others, and forgets the analysis. -/
theorem run_editFlow (g : Graph) (b : β) (id : Nat) (x : Op Failure (Flow × β) α) :
    ((Graph.editFlow id x).run (g, b)).state.1 =
      { g with
        flows := g.flows.modify id fun f => (x.run (f, b)).state.1
        analysis := none } := by
  rw [editFlow, run_bind, run_modify]
  dsimp only
  cases hf : g.flows[id]? with
  | none =>
    have hflow : ({ g with analysis := none } : Graph).flow id = .error (.flowNotFound id) := by
      rw [flow, hf]
    rw [List.modify_eq_self (List.getElem?_eq_none_iff.mp hf)]
    simp only [onFlow, run_bind, run_get, run_ofExcept, hflow]
  | some f =>
    rw [run_onFlow (g := { g with analysis := none }) hf]
    rw [← set_eq_modify hf]
    rfl

theorem flowwise_modify {R : Flow → Flow → Prop} [IsPreorder Flow R] (g : Graph) (id : Nat)
    {change : Flow → Flow} (hchange : ∀ f, R f (change f)) :
    Flowwise R g { g with flows := g.flows.modify id change, analysis := none } := by
  refine ⟨rfl, List.length_modify .., fun {other f} hf => ?_⟩
  rw [List.getElem?_modify, hf]
  split
  · exact ⟨_, rfl, hchange f⟩
  · exact ⟨f, rfl, Std.Refl.refl f⟩

theorem run_work (u : Flow.Use) (h : u.Plain) :
    (Use.work id u h).run g = { g with flows := g.flows.modify id u.run, analysis := none } :=
  run_editFlow g () id _

theorem run_inferFlow : (Use.inferFlow id).run g =
    { g with
      flows := g.flows.modify id fun f => ((Flow.infer g.resolve).run f).state
      analysis := none } :=
  run_editFlow g () id _

/-- Whether a use is an edit of the document. -/
def Use.Edits : Use → Prop
  | .edit _ _ => True
  | _ => False

/-- Uses that neither edit the document nor infer shapes are plain work on every flow. -/
theorem Use.worked {u : Use} (hedits : ¬ u.Edits) (hinfers : ¬ u.Infers) (g : Graph) :
    Flowwise Flow.Worked g (u.run g) := by
  have hrefl : Flowwise Flow.Worked g g := .refl g
  cases u with
  | edit e h => exact absurd trivial hedits
  | setConfig config =>
    rw [run, Graph.setConfig]
    cases config.check with
    | error e => exact hrefl
    | ok config => exact ⟨rfl, rfl, hrefl.flows⟩
  | verify => exact flowwise_verify g hrefl
  | inferAll => exact absurd trivial hinfers
  | buildForwardAll b raw =>
    exact flowwise_buildForwardAll Flow.worked_buildForward raw (g, b) hrefl
  | buildBackwardAll b => exact flowwise_buildBackwardAll Flow.worked_buildBackward (g, b) hrefl
  | buildAll b raw => exact absurd trivial hinfers
  | work id u h =>
    rw [run_work]
    exact flowwise_modify g id h.worked
  | inferFlow id => exact absurd trivial hinfers
  | reread config =>
    rw [run]
    cases hread : Graph.ofRecord g.record config with
    | error e => exact hrefl
    | ok g' =>
      obtain rfl := eq_of_ofRecord hread
      exact ⟨rfl, rfl, hrefl.flows⟩

/-- An edit is refused and changes nothing, or it leaves every flow unbuilt. -/
theorem Use.edit_cases (e : Edit) (h : e.Reachable) (g : Graph) :
    (∃ err, e.run.Fails g err g) ∧ (Use.edit e h).run g = g ∨
      e.run.Yields g () ((Use.edit e h).run g) ∧
        ∀ f ∈ ((Use.edit e h).run g).flows, f.state = .unbuilt := by
  rcases yields_or_fails e.run g with ⟨_, hyields⟩ | ⟨err, hfails⟩
  · refine .inr ⟨hyields, fun f hf => ?_⟩
    obtain ⟨rawInputs, -, -, hreset⟩ := Edit.resetAll_of_yields hyields
    rw [run, hreset] at hf
    obtain ⟨old, -, rfl⟩ := List.mem_map.mp hf
    rfl
  · have hsame := Edit.eq_of_fails hfails
    rw [hsame] at hfails
    exact .inl ⟨⟨err, hfails⟩, hsame⟩

end

end Graph

end LayerFlow
