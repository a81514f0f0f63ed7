/-
LayerFlow.Proofs.Backend.Requests

The tape under any requests, in any order and with any arguments, granted or refused.  A request
that is granted records its nodes behind those that are there, and each of them relies on nodes
that were there before; a request that is refused changes nothing.  So every tape that starts
empty is well formed.

Main statements: `Request.granted`, what a single request does, and `recorded_inOrder`, what that
makes of a whole run.
-/
import LayerFlow.Proofs.Backend.Granting
import LayerFlow.Proofs.Backend.Recording

namespace LayerFlow

open Op

/-! ## Nodes and what they rely on -/

/-- The nodes that a node names, be it to read them or to tell what it belongs to. -/
def Instruction.names : Instruction → List Handle
  | .readInput _ => []
  | .forward _ _ source => [source]
  | .concat sources => sources
  | .gradient node _ source => [node, source]
  | .concatGradient node _ source => [node, source]
  | .outputGradient source => [source]
  | .accumulate sources => sources

/-- What a node takes for granted on the tape that it is appended to: that the nodes it names are
there, that a gradient belongs to a forward kernel of its label and a part of a gradient to a
concatenation with that many sources, and that a sum has at least two terms. -/
structure Instruction.ReliesOn (t : Tape) (instruction : Instruction) : Prop where
  names : ∀ h ∈ instruction.names, t.Has h
  gradient : ∀ forward label source, instruction = .gradient forward label source →
    ∃ kernel padding input, t.node? forward = some (.forward kernel padding input) ∧
      kernel.label = label
  concatGradient : ∀ concatenation index source,
    instruction = .concatGradient concatenation index source →
    ∃ sources, t.node? concatenation = some (.concat sources) ∧ index < sources.length
  accumulate : ∀ sources, instruction = .accumulate sources → 2 ≤ sources.length

namespace Tape

variable {t t' : Tape}

/-- Nodes name earlier nodes only; a gradient names a forward kernel of its label, a part of a
gradient a concatenation with that many sources, and a sum has at least two terms. -/
structure WellFormed (t : Tape) : Prop where
  names : ∀ node instruction, t.node? node = some instruction →
    ∀ h ∈ instruction.names, h.index < node.index
  gradient : ∀ node forward label source, t.node? node = some (.gradient forward label source) →
    ∃ kernel padding input, t.node? forward = some (.forward kernel padding input) ∧
      kernel.label = label
  concatGradient : ∀ node concatenation index source,
    t.node? node = some (.concatGradient concatenation index source) →
    ∃ sources, t.node? concatenation = some (.concat sources) ∧ index < sources.length
  accumulate : ∀ node sources, t.node? node = some (.accumulate sources) → 2 ≤ sources.length

theorem wellFormed_empty (rejects : Option String) : (Tape.empty rejects).WellFormed := by
  have hnone : ∀ node, (Tape.empty rejects).node? node = none := fun node => by
    simp [node?, Tape.empty]
  refine ⟨fun node _ h => ?_, fun node _ _ _ h => ?_, fun node _ _ _ h => ?_,
    fun node _ h => ?_⟩
  all_goals
    rw [hnone] at h
    cases h

/-- The tape with more nodes at its end. -/
def extend (t : Tape) (nodes : List Instruction) : Tape :=
  { t with nodes := t.nodes ++ nodes.toArray }

@[simp] theorem extend_nil (t : Tape) : t.extend [] = t := by
  simp [extend]

theorem extend_extend (t : Tape) (nodes more : List Instruction) :
    (t.extend nodes).extend more = t.extend (nodes ++ more) := by
  simp [extend, Array.append_assoc]

theorem extend_singleton (t : Tape) (instruction : Instruction) :
    t.extend [instruction] = { t with nodes := t.nodes.push instruction } := by
  simp [extend]

theorem size_extend (t : Tape) (nodes : List Instruction) :
    (t.extend nodes).size = t.size + nodes.length := by
  simp [extend, size]

theorem node?_extend_of_lt {node : Handle} (nodes : List Instruction) (h : t.Has node) :
    (t.extend nodes).node? node = t.node? node := by
  show (t.nodes ++ nodes.toArray)[node.index]? = t.nodes[node.index]?
  exact Array.getElem?_append_left h

/-- Nodes that are recorded stay as they are. -/
theorem goesOn_extend (t : Tape) (nodes : List Instruction) : t.GoesOn (t.extend nodes) := by
  refine ⟨rfl, fun {node _} hnode => ?_⟩
  rw [node?_extend_of_lt nodes (has_of_node? hnode)]
  exact hnode

/-- A node of the longer tape was there before or is one of the new ones. -/
theorem node?_extend_cases {nodes : List Instruction} {node : Handle} {instruction : Instruction}
    (h : (t.extend nodes).node? node = some instruction) :
    t.node? node = some instruction ∨ t.size ≤ node.index ∧ instruction ∈ nodes := by
  by_cases hhas : node.index < t.size
  · rw [node?_extend_of_lt nodes hhas] at h
    exact .inl h
  · have hle : t.nodes.size ≤ node.index := Nat.le_of_not_lt hhas
    change (t.nodes ++ nodes.toArray)[node.index]? = some instruction at h
    rw [Array.getElem?_append_right hle, List.getElem?_toArray] at h
    exact .inr ⟨hle, List.mem_of_getElem? h⟩

/-- New nodes that rely on the old ones keep the tape well formed. -/
theorem WellFormed.extend (h : t.WellFormed) {nodes : List Instruction}
    (hnodes : ∀ instruction ∈ nodes, instruction.ReliesOn t) : (t.extend nodes).WellFormed where
  names node instruction hnode other hother := by
    rcases node?_extend_cases hnode with hold | ⟨hlast, hnew⟩
    · exact h.names node instruction hold other hother
    · exact Nat.lt_of_lt_of_le ((hnodes _ hnew).names other hother) hlast
  gradient node forward label source hnode := by
    -- The forward kernel was there before the gradient, and it still is.
    have hforward : ∃ kernel padding input,
        t.node? forward = some (.forward kernel padding input) ∧ kernel.label = label := by
      rcases node?_extend_cases hnode with hold | ⟨-, hnew⟩
      · exact h.gradient node forward label source hold
      · exact (hnodes _ hnew).gradient forward label source rfl
    obtain ⟨kernel, padding, input, hfound, hlabel⟩ := hforward
    exact ⟨kernel, padding, input, (t.goesOn_extend nodes).node? hfound, hlabel⟩
  concatGradient node concatenation index source hnode := by
    have hconcat : ∃ sources, t.node? concatenation = some (.concat sources) ∧
        index < sources.length := by
      rcases node?_extend_cases hnode with hold | ⟨-, hnew⟩
      · exact h.concatGradient node concatenation index source hold
      · exact (hnodes _ hnew).concatGradient concatenation index source rfl
    obtain ⟨sources, hfound, hindex⟩ := hconcat
    exact ⟨sources, (t.goesOn_extend nodes).node? hfound, hindex⟩
  accumulate node sources hnode := by
    rcases node?_extend_cases hnode with hold | ⟨-, hnew⟩
    · exact h.accumulate node sources hold
    · exact (hnodes _ hnew).accumulate sources rfl

end Tape

/-! ## Requests -/

/-- What can be asked of the tape. -/
inductive Request where
  | readInput (slot : Nat)
  | readInputs (count : Nat)
  | forward (kernel : Kernel) (padding : PaddingPolicy) (input : Handle)
  | gradient (node : Handle) (kernel : Kernel) (source : Handle)
  | concatenation (inputs : List Handle)
  | concatenationGradient (node source : Handle)
  | outputGradient (output : Handle)
  | accumulation (gradients : List Handle)

namespace Request

/-- An operation of the tape alone, next to a parameter store. -/
def alone {α : Type} (x : Op BackendFault Tape α) :
    Op BackendFault (Tape × Option ParamStore) α :=
  zoom Prod.fst (fun t s => (t, s.2)) x

/-- Answers with one handle. -/
def one {σ : Type} (x : Op BackendFault σ Handle) : Op BackendFault σ (List Handle) := do
  let h ← x
  pure [h]

/-- Makes a request; a parameter store comes along, and the answer lists the handles. -/
def perform : Request → Op BackendFault (Tape × Option ParamStore) (List Handle)
  | .readInput slot => alone (one (Tape.readInput slot))
  | .readInputs count => alone (Tape.readInputs count)
  | .forward kernel padding input => one (Backend.appendForward kernel padding input)
  | .gradient node kernel source => alone (one (Backend.appendGradient node kernel source))
  | .concatenation inputs => alone (one (Backend.appendConcatenation inputs))
  | .concatenationGradient node source =>
    alone (Backend.appendConcatenationGradient node source)
  | .outputGradient output => alone (one (Backend.appendOutputGradient output))
  | .accumulation gradients => alone (one (Backend.appendAccumulation gradients))

end Request

namespace Tape

variable {t t' : Tape} {answer : List Handle}

/-- The tape after some requests, each with the parameter store that came along, whether they were
granted or refused. -/
def after (t : Tape) (requests : List (Request × Option ParamStore)) : Tape :=
  requests.foldl (fun t request => (request.1.perform.run (t, request.2)).state.1) t

/-- The handles of the nodes that a tape has got since. -/
def handlesSince (t t' : Tape) : List Handle :=
  (List.range' t.size (t'.size - t.size)).map Handle.mk

theorem handlesSince_extend (t : Tape) (nodes : List Instruction) :
    handlesSince t (t.extend nodes) = (List.range' t.size nodes.length).map Handle.mk := by
  rw [handlesSince, size_extend, Nat.add_sub_cancel_left]

theorem has_of_mem_handlesSince {h : Handle} (hmem : h ∈ handlesSince t t') : t'.Has h := by
  obtain ⟨position, hposition, rfl⟩ := List.mem_map.mp hmem
  obtain ⟨hle, hlt⟩ := List.mem_range'_1.mp hposition
  show position < t'.size
  omega

/-- A tape that got nodes, each of which relies on the tape as it was, and the handles of these
nodes. -/
def Grown (t : Tape) (answer : List Handle) (t' : Tape) : Prop :=
  ∃ nodes, (∀ instruction ∈ nodes, instruction.ReliesOn t) ∧ t' = t.extend nodes ∧
    answer = (List.range' t.size nodes.length).map Handle.mk

/-! ### Recording -/

theorem grown_of_yields_push {ε : Type} {instruction : Instruction} {h : Handle}
    (hrelies : instruction.ReliesOn t)
    (hpush : (push instruction : Op ε Tape Handle).Yields t h t') : t.Grown [h] t' := by
  obtain ⟨rfl, rfl⟩ := yields_push.mp hpush
  exact ⟨[instruction], List.forall_mem_singleton.mpr hrelies,
    (t.extend_singleton instruction).symm, rfl⟩

theorem extend_of_yields_pushes {ε : Type} {instruction : Nat → Instruction} {indices : List Nat}
    (h : (forEach (fun index => push (instruction index)) indices : Op ε Tape _).Yields t answer
      t') :
    t' = t.extend (indices.map instruction) ∧
      answer = (List.range' t.size indices.length).map Handle.mk := by
  induction indices generalizing t answer with
  | nil =>
    obtain ⟨rfl, rfl⟩ := yields_forEach_nil.mp h
    exact ⟨(extend_nil _).symm, rfl⟩
  | cons index rest ih =>
    obtain ⟨first, u, more, hfirst, hrest, rfl⟩ := yields_forEach_cons.mp h
    obtain ⟨rfl, hu⟩ := yields_push.mp hfirst
    rw [← extend_singleton] at hu
    subst hu
    obtain ⟨rfl, rfl⟩ := ih hrest
    -- The first handle is the old size, and the others count from there.
    refine ⟨extend_extend t [instruction index] (rest.map instruction), ?_⟩
    rw [size_extend, List.length_singleton, List.length_cons, List.range'_succ, List.map_cons]

theorem grown_of_yields_pushes {ε : Type} {instruction : Nat → Instruction} {indices : List Nat}
    (hrelies : ∀ index ∈ indices, (instruction index).ReliesOn t)
    (h : (forEach (fun index => push (instruction index)) indices : Op ε Tape _).Yields t answer
      t') : t.Grown answer t' := by
  obtain ⟨rfl, rfl⟩ := extend_of_yields_pushes h
  refine ⟨indices.map instruction, fun other hother => ?_, rfl, ?_⟩
  · obtain ⟨index, hindex, rfl⟩ := List.mem_map.mp hother
    exact hrelies index hindex
  · rw [List.length_map]

theorem yields_require_iff {h : Handle} {u : Unit} :
    (require h).Yields t u t' ↔ t.Has h ∧ t' = t := by
  constructor
  · rintro ⟨hresult, hstate⟩
    rw [require_state] at hstate
    unfold Op.run require at hresult
    split at hresult
    · next hhas => exact ⟨hhas, hstate.symm⟩
    · cases hresult
  · rintro ⟨hhas, rfl⟩
    exact yields_require hhas

theorem yields_requireAll_iff {hs : List Handle} {u : Unit} :
    (requireAll hs).Yields t u t' ↔ (∀ h ∈ hs, t.Has h) ∧ t' = t := by
  constructor
  · intro h
    induction hs generalizing t with
    | nil => exact ⟨by simp, (yields_pure.mp h).2⟩
    | cons first rest ih =>
      obtain ⟨_, _, hfirst, hrest⟩ := yields_bind.mp h
      obtain ⟨hhas, rfl⟩ := yields_require_iff.mp hfirst
      obtain ⟨hmore, rfl⟩ := ih hrest
      exact ⟨List.forall_mem_cons.mpr ⟨hhas, hmore⟩, rfl⟩
  · rintro ⟨hhas, rfl⟩
    exact yields_requireAll hhas

/-! ### Requests one by one -/

theorem reliesOn_readInput (slot : Nat) : (Instruction.readInput slot).ReliesOn t :=
  ⟨by simp [Instruction.names], by simp, by simp, by simp⟩

theorem grown_of_yields_appendForward {kernel : Kernel} {padding : PaddingPolicy}
    {input node : Handle} {store store' : Option ParamStore}
    (h : (appendForward kernel padding input).Yields (t, store) node (t', store')) :
    t.Grown [node] t' := by
  obtain ⟨_, s, hzoom, h⟩ := yields_bind.mp h
  obtain ⟨u, hrequire, rfl⟩ := yields_zoom.mp hzoom
  obtain ⟨hhas, hu⟩ := yields_require_iff.mp hrequire
  obtain rfl : u = t := hu
  have hrelies : (Instruction.forward kernel padding input).ReliesOn u :=
    ⟨by simpa [Instruction.names] using hhas, by simp, by simp, by simp⟩
  replace h := yields_get_bind.mp h
  by_cases hrefuses : u.refuses kernel.label = true
  · simp [hrefuses] at h
  simp only [hrefuses, Bool.false_eq_true, if_false] at h
  -- The store may be filled first; the node follows either way.
  have hlast : ∀ filled : Option ParamStore, (zoom Prod.fst (fun t s => (t, s.2))
      (push (.forward kernel padding input)) :
        Op BackendFault (Tape × Option ParamStore) Handle).Yields (u, filled) node (t', store') →
      u.Grown [node] t' := by
    intro filled hpush
    obtain ⟨v, hnode, heq⟩ := yields_zoom.mp hpush
    rw [show t' = v from congrArg Prod.fst heq]
    exact grown_of_yields_push hrelies hnode
  split at h
  · obtain ⟨_, v, hset, hpush⟩ := yields_bind.mp h
    rw [yields_set.mp hset] at hpush
    exact hlast _ hpush
  · exact hlast _ h

theorem grown_of_yields_appendGradient {forward source node : Handle} {kernel : Kernel}
    (h : (appendGradient forward kernel source).Yields t node t') : t.Grown [node] t' := by
  obtain ⟨_, _, hrequire, hrest⟩ := yields_bind.mp h
  obtain ⟨hsource, rfl⟩ := yields_require_iff.mp hrequire
  replace hrest := yields_get_bind.mp hrest
  split at hrest
  · next recorded padding input hforward =>
    split at hrest
    · next hlabel =>
      refine grown_of_yields_push ⟨?_, ?_, by simp, by simp⟩ hrest
      · simpa [Instruction.names] using ⟨has_of_node? hforward, hsource⟩
      · rintro _ _ _ ⟨⟩
        exact ⟨recorded, padding, input, hforward, hlabel⟩
    · cases yields_fail.mp hrest
  · cases yields_fail.mp hrest

theorem grown_of_yields_appendConcatenation {inputs : List Handle} {node : Handle}
    (h : (appendConcatenation inputs).Yields t node t') : t.Grown [node] t' := by
  unfold appendConcatenation at h
  split at h
  · cases yields_fail.mp h
  · obtain ⟨_, _, hrequire, hpush⟩ := yields_bind.mp h
    obtain ⟨hinputs, rfl⟩ := yields_requireAll_iff.mp hrequire
    have hrelies : (Instruction.concat inputs).ReliesOn _ :=
      ⟨hinputs, by simp, by simp, by simp⟩
    exact grown_of_yields_push hrelies hpush

theorem grown_of_yields_appendConcatenationGradient {node source : Handle}
    (h : (appendConcatenationGradient node source).Yields t answer t') : t.Grown answer t' := by
  obtain ⟨_, _, hrequire, hrest⟩ := yields_bind.mp h
  obtain ⟨hsource, rfl⟩ := yields_require_iff.mp hrequire
  replace hrest := yields_get_bind.mp hrest
  split at hrest
  · next sources hconcat =>
    refine grown_of_yields_pushes (fun index hindex => ⟨?_, by simp, ?_, by simp⟩) hrest
    · simpa [Instruction.names] using ⟨has_of_node? hconcat, hsource⟩
    · rintro _ _ _ ⟨⟩
      exact ⟨sources, hconcat, List.mem_range.mp hindex⟩
  · cases yields_fail.mp hrest

theorem grown_of_yields_appendOutputGradient {output node : Handle}
    (h : (appendOutputGradient output).Yields t node t') : t.Grown [node] t' := by
  obtain ⟨_, _, hrequire, hpush⟩ := yields_bind.mp h
  obtain ⟨houtput, rfl⟩ := yields_require_iff.mp hrequire
  exact grown_of_yields_push
    ⟨by simpa [Instruction.names] using houtput, by simp, by simp, by simp⟩ hpush

/-- A sum of several gradients is a node; a single gradient is its own sum. -/
theorem grown_of_yields_appendAccumulation {gradients : List Handle} {node : Handle}
    (h : (appendAccumulation gradients).Yields t node t') :
    (t.Grown [node] t' ∧ ∀ single, gradients ≠ [single]) ∨
      gradients = [node] ∧ t.Has node ∧ t' = t := by
  unfold appendAccumulation at h
  split at h
  · cases yields_fail.mp h
  · next single =>
    obtain ⟨_, _, hrequire, hpure⟩ := yields_bind.mp h
    obtain ⟨hsingle, rfl⟩ := yields_require_iff.mp hrequire
    obtain ⟨rfl, rfl⟩ := yields_pure.mp hpure
    exact .inr ⟨rfl, hsingle, rfl⟩
  · next hnil hmany =>
    obtain ⟨_, _, hrequire, hpush⟩ := yields_bind.mp h
    obtain ⟨hgradients, rfl⟩ := yields_requireAll_iff.mp hrequire
    -- There is a gradient, and it is not the only one.
    have hlength : 2 ≤ gradients.length := by
      rcases gradients with _ | ⟨first, _ | ⟨second, rest⟩⟩
      · exact absurd rfl hnil
      · exact absurd rfl (hmany first)
      · simp
    have hrelies : (Instruction.accumulate gradients).ReliesOn _ :=
      ⟨hgradients, by simp, by simp, by rintro _ ⟨⟩; exact hlength⟩
    exact .inl ⟨grown_of_yields_push hrelies hpush, hmany⟩

end Tape

namespace Request

variable {t t' : Tape} {store store' : Option ParamStore} {answer : List Handle}

theorem yields_alone {α : Type} {x : Op BackendFault Tape α} {a : α}
    (h : (alone x).Yields (t, store) a (t', store')) : x.Yields t a t' := by
  obtain ⟨u, hx, heq⟩ := yields_zoom.mp h
  cases heq
  exact hx

theorem yields_one {σ : Type} {x : Op BackendFault σ Handle} {s s' : σ}
    (h : (one x).Yields s answer s') : ∃ node, answer = [node] ∧ x.Yields s node s' := by
  obtain ⟨node, _, hx, hpure⟩ := yields_bind.mp h
  obtain ⟨rfl, rfl⟩ := yields_pure.mp hpure
  exact ⟨node, rfl, hx⟩

/-- A request that is granted records nodes that rely on the tape as it was, and answers with their
handles; only the sum of a single gradient records nothing and answers with that gradient. -/
theorem granted {r : Request} (h : r.perform.Yields (t, store) answer (t', store')) :
    (t.Grown answer t' ∧ ∀ single, r ≠ .accumulation [single]) ∨
      ∃ single, r = .accumulation [single] ∧ answer = [single] ∧ t.Has single ∧ t' = t := by
  cases r with
  | readInput slot =>
    obtain ⟨node, rfl, hx⟩ := yields_one (yields_alone h)
    exact .inl ⟨Tape.grown_of_yields_push (Tape.reliesOn_readInput slot) hx, nofun⟩
  | readInputs count =>
    exact .inl ⟨Tape.grown_of_yields_pushes (fun slot _ => Tape.reliesOn_readInput slot)
      (yields_alone h), nofun⟩
  | forward kernel padding input =>
    obtain ⟨node, rfl, hx⟩ := yields_one h
    exact .inl ⟨Tape.grown_of_yields_appendForward hx, nofun⟩
  | gradient forward kernel source =>
    obtain ⟨node, rfl, hx⟩ := yields_one (yields_alone h)
    exact .inl ⟨Tape.grown_of_yields_appendGradient hx, nofun⟩
  | concatenation inputs =>
    obtain ⟨node, rfl, hx⟩ := yields_one (yields_alone h)
    exact .inl ⟨Tape.grown_of_yields_appendConcatenation hx, nofun⟩
  | concatenationGradient concatenation source =>
    exact .inl ⟨Tape.grown_of_yields_appendConcatenationGradient (yields_alone h), nofun⟩
  | outputGradient output =>
    obtain ⟨node, rfl, hx⟩ := yields_one (yields_alone h)
    exact .inl ⟨Tape.grown_of_yields_appendOutputGradient hx, nofun⟩
  | accumulation gradients =>
    obtain ⟨node, rfl, hx⟩ := yields_one (yields_alone h)
    rcases Tape.grown_of_yields_appendAccumulation hx with ⟨hgrown, hmany⟩ | ⟨rfl, hnode, rfl⟩
    · refine .inl ⟨hgrown, fun single hsingle => ?_⟩
      cases hsingle
      exact hmany single rfl
    · exact .inr ⟨node, rfl, rfl, hnode, rfl⟩

/-! ### Requests that are refused -/

theorem careful_alone {α : Type} {x : Op BackendFault Tape α} (h : Tape.Careful x) :
    Tape.Careful (alone x) := by
  rintro ⟨t, store⟩ e s' hfails
  obtain ⟨u, hx, rfl⟩ := fails_zoom.mp hfails
  rw [h _ _ _ hx]

theorem careful_one {σ : Type} {x : Op BackendFault σ Handle} (h : Tape.Careful x) :
    Tape.Careful (one x) := by
  intro s e s' hfails
  rcases fails_bind.mp hfails with hx | ⟨_, _, -, hpure⟩
  · exact h _ _ _ hx
  · cases fails_pure.mp hpure

/-- A request that is refused changes neither the tape nor the parameter store. -/
theorem careful_perform (r : Request) : Tape.Careful r.perform := by
  cases r with
  | readInput slot => exact careful_alone (careful_one (Tape.careful_push _))
  | readInputs count => exact careful_alone fun _ _ _ h => absurd h Tape.not_fails_pushes
  | forward kernel padding input =>
    exact careful_one (Tape.careful_appendForward kernel padding input)
  | gradient forward kernel source =>
    exact careful_alone (careful_one (Tape.careful_appendGradient forward kernel source))
  | concatenation inputs =>
    exact careful_alone (careful_one (Tape.careful_appendConcatenation inputs))
  | concatenationGradient concatenation source =>
    exact careful_alone (Tape.careful_appendConcatenationGradient concatenation source)
  | outputGradient output =>
    exact careful_alone (careful_one (Tape.careful_appendOutputGradient output))
  | accumulation gradients =>
    exact careful_alone (careful_one (Tape.careful_appendAccumulation gradients))

end Request

/-! ## Runs -/

namespace Tape

variable {t : Tape}

/-- A request leaves a tape that goes on from the one before, and keeps it well formed. -/
theorem step (h : t.WellFormed) (r : Request) (store : Option ParamStore) :
    t.GoesOn (r.perform.run (t, store)).state.1 ∧
      (r.perform.run (t, store)).state.1.WellFormed := by
  rcases yields_or_fails r.perform (t, store) with ⟨answer, hyields⟩ | ⟨e, hfails⟩
  · rcases r.granted hyields with ⟨⟨nodes, hnodes, ht', -⟩, -⟩ | ⟨single, -, -, -, ht'⟩
    · rw [ht']
      exact ⟨t.goesOn_extend nodes, h.extend hnodes⟩
    · rw [ht']
      exact ⟨.refl t, h⟩
  · rw [r.careful_perform _ _ _ hfails]
    exact ⟨.refl t, h⟩

/-- What every single request keeps, a run of them keeps. -/
theorem WellFormed.after (h : t.WellFormed) (requests : List (Request × Option ParamStore)) :
    t.GoesOn (t.after requests) ∧ (t.after requests).WellFormed := by
  induction requests generalizing t with
  | nil => exact ⟨.refl t, h⟩
  | cons request rest ih =>
    obtain ⟨hgoes, hwell⟩ := step h request.1 request.2
    obtain ⟨hmore, hlast⟩ := ih hwell
    exact ⟨hgoes.trans hmore, hlast⟩

/-- Whatever is asked of a tape that starts empty, granted or refused: its nodes name earlier nodes
only, a gradient a forward kernel of its label, a part of a gradient a concatenation with that many
sources, and sums have at least two terms.  Nodes stay as they are whatever is asked afterwards.  A
request that is granted answers with handles of nodes that exist, which are those of the nodes that
it appended, but for the sum of a single gradient: this is that gradient, and nothing is appended.
A request that is refused leaves the tape, and the parameter store that came along, as they were. -/
theorem recorded_inOrder (rejects : Option String)
    (requests : List (Request × Option ParamStore)) :
    let t := (Tape.empty rejects).after requests
    t.WellFormed ∧
      (∀ later node instruction, t.node? node = some instruction →
        (t.after later).node? node = some instruction) ∧
      ∀ (r : Request) (store : Option ParamStore),
        (∀ answer t' store', r.perform.Yields (t, store) answer (t', store') →
          (∀ h ∈ answer, t'.Has h) ∧
          (∀ single, r = .accumulation [single] → answer = [single] ∧ t' = t) ∧
          ((∀ single, r ≠ .accumulation [single]) → answer = handlesSince t t')) ∧
        ∀ e s', r.perform.Fails (t, store) e s' → s' = (t, store) := by
  intro t
  have hwell : t.WellFormed := ((wellFormed_empty rejects).after requests).2
  refine ⟨hwell, fun later node instruction => (hwell.after later).1.node?, fun r store =>
    ⟨fun answer t' store' hyields => ?_, fun e s' => r.careful_perform _ e s'⟩⟩
  rcases r.granted hyields with ⟨⟨nodes, -, rfl, rfl⟩, hmany⟩ | ⟨single, rfl, rfl, hhas, rfl⟩
  · rw [← handlesSince_extend]
    exact ⟨fun h => has_of_mem_handlesSince, fun single h => absurd h (hmany single),
      fun _ => rfl⟩
  · refine ⟨List.forall_mem_singleton.mpr hhas, ?_, fun h => absurd rfl (h single)⟩
    rintro other ⟨⟩
    exact ⟨rfl, rfl⟩

/-! ## A run on a small tape -/

/-- Requests for two raw inputs, their concatenation and its gradient; the last one names a node
that is not there. -/
def splitRequests : List (Request × Option ParamStore) :=
  [(.readInputs 2, none), (.concatenation [⟨1⟩, ⟨0⟩], none), (.outputGradient ⟨2⟩, none),
    (.concatenationGradient ⟨2⟩ ⟨3⟩, none), (.concatenation [⟨9⟩], none)]

/-- The two parts of the gradient follow one another, the concatenation that they name has the two
sources, and their sum comes next. -/
theorem recorded_inOrder_split :
    let t := (Tape.empty none).after splitRequests
    t.node? ⟨5⟩ = some (.concatGradient ⟨2⟩ 1 ⟨3⟩) ∧
      (∃ sources, t.node? ⟨2⟩ = some (.concat sources) ∧ 1 < sources.length) ∧
      handlesSince t (t.extend [.accumulate [⟨4⟩, ⟨5⟩]]) = [⟨6⟩] := by
  obtain ⟨hwell, -, hrequest⟩ := recorded_inOrder none splitRequests
  have hnode : ((Tape.empty none).after splitRequests).node? ⟨5⟩ =
      some (.concatGradient ⟨2⟩ 1 ⟨3⟩) := rfl
  refine ⟨hnode, hwell.concatGradient _ _ _ _ hnode, ?_⟩
  have hanswer := (hrequest (.accumulation [⟨4⟩, ⟨5⟩]) none).1 [⟨6⟩] _ none ⟨rfl, rfl⟩
  exact (hanswer.2.2 nofun).symm

end Tape

end LayerFlow
