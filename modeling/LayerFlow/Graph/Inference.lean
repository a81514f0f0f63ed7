/-
LayerFlow.Graph.Inference

Inference over a whole graph: passes over all flows until nothing changes.  A pass goes through
the flows in the order of evaluation, or level by level with the flows of a level inferred
independently; on a level no flow reads another.

Main statements: `settle_zero`, no pass is run beyond the limit, and `run_inferAllWith` with
`run_inferAllWith_of_refused`, what the pool of a parallel inference decides.
-/
import LayerFlow.Flow.Inference
import LayerFlow.Graph.Edit

namespace LayerFlow.Graph

/-- The shape of a source as the graph knows it now. -/
def resolve (g : Graph) : Flow.Resolver
  | .raw slot =>
    match g.rawInputs[slot]? with
    | some shape => .ok shape
    | none => .error (.badSource (.missingRaw slot))
  | .flow id =>
    match g.flows[id]? with
    | some f => .ok f.shapes.output
    | none => .error (.flowNotFound id)

/-- Forgets builds and shapes of some flows. -/
def clearFlows (g : Graph) (ids : List Nat) : Graph :=
  { g with flows := ids.foldl (fun flows id => flows.modify id Flow.clear) g.flows }

/-! ## One pass in order -/

/-- Infers flows one after the other; the answer tells whether any of them changed.  If one
fails, those after it are cleared. -/
def inferInOrder : List Nat → Op Failure Graph Bool
  | [] => pure false
  | id :: rest => fun g =>
    match g.flow id with
    | .error e => ⟨.error e, g, []⟩
    | .ok f =>
      let out := (Flow.infer g.resolve).run f
      let g := g.setFlow id out.state
      match out.result with
      | .error e => ⟨.error e, g.clearFlows rest, out.log⟩
      | .ok changed =>
        let more := (inferInOrder rest).run g
        ⟨more.result.map (changed || ·), more.state, out.log ++ more.log⟩

/-! ## One pass by levels -/

/-- The failure of several independent computations: an overflow stops them all, otherwise the
first failure counts. -/
def firstFailure {α : Type} (results : List (Except Failure α)) : Option Failure :=
  let failures := results.filterMap fun
    | .error e => some e
    | .ok _ => none
  if .overflow ∈ failures then some .overflow else failures.head?

/-- Infers the flows of a level, each from the shapes before the level. -/
def inferLevel (ids : List Nat) : Op Failure Graph Bool := fun g =>
  let outs := ids.filterMap fun id =>
    g.flows[id]?.map fun f => (id, (Flow.infer g.resolve).run f)
  let after := outs.foldl (fun g entry => g.setFlow entry.1 entry.2.state) g
  let log := outs.flatMap fun entry => entry.2.log
  match firstFailure (outs.map fun entry => entry.2.result) with
  | some e => ⟨.error e, after, log⟩
  | none => ⟨.ok (outs.any fun entry => entry.2.result matches .ok true), after, log⟩

/-- Infers level after level; the answer tells whether any flow changed.  If a level fails, those
above it are cleared. -/
def inferLevels : List (List Nat) → Op Failure Graph Bool
  | [] => pure false
  | ids :: later => fun g =>
    let out := (inferLevel ids).run g
    match out.result with
    | .error e => ⟨.error e, out.state.clearFlows later.flatten, out.log⟩
    | .ok changed =>
      let more := (inferLevels later).run out.state
      ⟨more.result.map (changed || ·), more.state, out.log ++ more.log⟩

/-! ## Passes until nothing changes -/

/-- Repeats a pass until it changes nothing, at most `left` times out of `limit`; the answer
tells whether any pass changed something. -/
def settle (pass : Op Failure Graph Bool) (limit : Nat) : (left : Nat) → (anyChanged : Bool) →
    Op Failure Graph Bool
  | 0, _ => do
    Op.say .warn s!"Shapes still changing after {limit} passes"
    Op.fail (.notSettled limit)
  | left + 1, anyChanged => do
    let changed ← pass
    if changed then settle pass limit left true
    else
      let g ← Op.get
      Op.say .info s!"Inferred {g.size} flow(s) in {limit - left} pass(es)"
      pure anyChanged

/-! ## Whole inferences -/

/-- Asks for the workers of an inference in parallel.  The pool tells what it comes to to ask for a
number of them: they are there, or there is a reason why not. -/
def recruit (pool : Nat → Except String Unit) (config : Config) : Except Failure Unit :=
  if config.parallel then
    (pool config.workers).mapError fun reason => .badConfig (.noThreads reason)
  else .ok ()

/-- Infers all flows of the graph with the workers of a pool; the answer tells whether any shape
changed. -/
def inferAllWith (pool : Nat → Except String Unit) : Op Failure Graph Bool := do
  let analysis ← ensureVerified
  let g ← Op.get
  Op.ofExcept (recruit pool g.config)
  let pass :=
    if g.config.parallel then inferLevels (References.groupByLevel analysis.levels)
    else inferInOrder analysis.order
  settle pass g.config.maxPasses g.config.maxPasses false

/-- Infers all flows of the graph; the answer tells whether any shape changed.  The workers of an
inference in parallel are taken to be there whenever they are asked for. -/
def inferAll : Op Failure Graph Bool := inferAllWith fun _ => .ok ()

/-! ## Laws -/

/-- No pass is run beyond the limit. -/
theorem settle_zero (pass : Op Failure Graph Bool) (limit : Nat) (anyChanged : Bool) (g : Graph) :
    ((settle pass limit 0 anyChanged).run g).result = .error (.notSettled limit) ∧
      ((settle pass limit 0 anyChanged).run g).state = g := by
  simp [settle, Op.run_bind]

theorem config_ensureVerified (g : Graph) : (ensureVerified.run g).state.config = g.config := by
  simp only [ensureVerified, verify, Op.run_bind, Op.run_get]
  cases g.analysis with
  | some analysis => rfl
  | none =>
    simp only [Op.run_bind, Op.run_get, Op.run_ofExcept]
    cases checkStructure g.rawInputs.length g.flows <;> rfl

/-- Where the workers are there, an inference is its passes. -/
theorem inferAll_eq : inferAll = (do
    let analysis ← ensureVerified
    let g ← Op.get
    settle (if g.config.parallel then inferLevels (References.groupByLevel analysis.levels)
      else inferInOrder analysis.order) g.config.maxPasses g.config.maxPasses false) := by
  have hrecruit : ∀ config, recruit (fun _ => .ok ()) config = .ok () := by
    intro config
    rw [recruit]
    split <;> rfl
  funext g
  show (inferAll.run g) = Op.run _ g
  simp only [inferAll, inferAllWith, hrecruit]
  rfl

/-- What a pool says matters only if it refuses the workers of the graph. -/
theorem run_inferAllWith {pool : Nat → Except String Unit} {g : Graph}
    (h : recruit pool g.config = .ok ()) : (inferAllWith pool).run g = inferAll.run g := by
  -- The workers are asked for behind the analysis, with the settings that were there before it.
  rw [← config_ensureVerified] at h
  rw [inferAll_eq, inferAllWith, Op.run_bind, Op.run_bind]
  rcases hrun : ensureVerified.run g with ⟨result, verified, log⟩
  rw [hrun] at h
  cases result with
  | error e => rfl
  | ok analysis => simp only [Op.run_bind, Op.run_get, Op.run_ofExcept, h, List.nil_append]

/-- Without workers an inference in parallel ends behind the analysis of the references. -/
theorem run_inferAllWith_of_refused {pool : Nat → Except String Unit} {g : Graph} {reason : String}
    (hparallel : g.config.parallel = true) (hpool : pool g.config.workers = .error reason) :
    (inferAllWith pool).run g =
      (ensureVerified >>= fun _ => Op.fail (.badConfig (.noThreads reason))).run g := by
  have hrefused : recruit pool g.config = .error (.badConfig (.noThreads reason)) := by
    rw [recruit, if_pos hparallel, hpool]
    rfl
  rw [← config_ensureVerified] at hrefused
  rw [inferAllWith, Op.run_bind, Op.run_bind]
  rcases hrun : ensureVerified.run g with ⟨result, verified, log⟩
  rw [hrun] at hrefused
  cases result with
  | error e => rfl
  | ok analysis =>
    simp only [Op.run_bind, Op.run_get, Op.run_ofExcept, Op.run_fail, hrefused, List.nil_append]

end LayerFlow.Graph
