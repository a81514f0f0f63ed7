/-
LayerFlow.Proofs.Backend.Recording

What the tape makes of the requests of a build.  Every request that is granted appends its own
nodes at the end and nothing else changes; a request that is refused leaves the tape as it was.
So the nodes that a build appends can be read off the requests it made.

Main statement: `Observed.alike_recorded`, the tape under observation holds the nodes of the
requests made of it, whatever the requests are.
-/
import LayerFlow.Backend.Tape
import LayerFlow.Proofs.Backend.Calls
import Mathlib.Data.List.Nodup

namespace LayerFlow

open Op

/-! ## Nodes with their handles -/

namespace Tape

/-- The recorded nodes with their handles, first to last. -/
def records (t : Tape) : List (Handle × Instruction) :=
  t.nodes.toList.zipIdx.map fun entry => (⟨entry.2⟩, entry.1)

theorem length_records (t : Tape) : t.records.length = t.size := by
  rw [records, List.length_map, List.length_zipIdx, Array.length_toList]
  rfl

theorem records_push (t : Tape) (instruction : Instruction) :
    Tape.records { t with nodes := t.nodes.push instruction } =
      t.records ++ [(⟨t.size⟩, instruction)] := by
  simp [records, List.zipIdx_append, size]

/-- Every handle stands for one node. -/
theorem nodup_records (t : Tape) : (t.records.map Prod.fst).Nodup := by
  rw [records, List.map_map]
  show (t.nodes.toList.zipIdx.map (Handle.mk ∘ Prod.snd)).Nodup
  rw [← List.map_map, List.zipIdx_map_snd]
  -- A node is named by its place, and no two share a place.
  apply List.Nodup.map
  · intro i j h
    cases h
    rfl
  · exact List.nodup_range'

/-- The nodes with their handles are those that the tape finds by them. -/
theorem mem_records_iff {t : Tape} {node : Handle} {instruction : Instruction} :
    (node, instruction) ∈ t.records ↔ t.node? node = some instruction := by
  rw [records, List.mem_map, node?, ← Array.getElem?_toList]
  constructor
  · rintro ⟨entry, hentry, heq⟩
    cases heq
    exact List.mem_zipIdx_iff_getElem?.mp hentry
  · intro h
    exact ⟨(instruction, node.index), List.mem_zipIdx_iff_getElem?.mpr h, rfl⟩

/-- Nodes with consecutive handles, the first of which is given by its number. -/
def numbered (next : Nat) (nodes : List Instruction) : List (Handle × Instruction) :=
  (nodes.zipIdx next).map fun entry => (⟨entry.2⟩, entry.1)

theorem records_eq_numbered (t : Tape) : t.records = numbered 0 t.nodes.toList := rfl

@[simp] theorem numbered_nil (next : Nat) : numbered next [] = [] := rfl

@[simp] theorem numbered_cons (next : Nat) (node : Instruction) (nodes : List Instruction) :
    numbered next (node :: nodes) = (⟨next⟩, node) :: numbered (next + 1) nodes := rfl

@[simp] theorem map_snd_numbered (next : Nat) (nodes : List Instruction) :
    (numbered next nodes).map Prod.snd = nodes := by
  induction nodes generalizing next with
  | nil => rfl
  | cons node nodes ih => rw [numbered_cons, List.map_cons, ih]

@[simp] theorem numbered_eq_nil_iff {next : Nat} {nodes : List Instruction} :
    numbered next nodes = [] ↔ nodes = [] := by
  cases nodes <;> simp

theorem numbered_eq_cons_iff {next : Nat} {nodes : List Instruction} {h : Handle}
    {node : Instruction} {rest : List (Handle × Instruction)} :
    numbered next nodes = (h, node) :: rest ↔
      ∃ more, nodes = node :: more ∧ h = ⟨next⟩ ∧ numbered (next + 1) more = rest := by
  cases nodes with
  | nil => simp
  | cons first nodes =>
    rw [numbered_cons, List.cons.injEq, Prod.mk.injEq]
    constructor
    · rintro ⟨⟨rfl, rfl⟩, rfl⟩
      exact ⟨nodes, rfl, rfl, rfl⟩
    · rintro ⟨_, ⟨⟩, rfl, rfl⟩
      exact ⟨⟨rfl, rfl⟩, rfl⟩

theorem numbered_append (next : Nat) (nodes more : List Instruction) :
    numbered next (nodes ++ more) = numbered next nodes ++ numbered (next + nodes.length) more := by
  rw [numbered, List.zipIdx_append, List.map_append]
  rfl

/-- Numbered nodes that fall into two parts: the second goes on where the first ends. -/
theorem numbered_eq_append_iff {next : Nat} {nodes : List Instruction}
    {first second : List (Handle × Instruction)} :
    numbered next nodes = first ++ second ↔ ∃ before after, nodes = before ++ after ∧
      numbered next before = first ∧ numbered (next + before.length) after = second := by
  constructor
  · intro h
    have hnodes : nodes = first.map Prod.snd ++ second.map Prod.snd := by
      rw [← List.map_append, ← h, map_snd_numbered]
    have hlength : (numbered next (first.map Prod.snd)).length = first.length := by
      simp [numbered]
    rw [hnodes, numbered_append] at h
    obtain ⟨hfirst, hsecond⟩ := List.append_inj h hlength
    exact ⟨_, _, hnodes, hfirst, hsecond⟩
  · rintro ⟨before, after, rfl, rfl, rfl⟩
    exact numbered_append next before after

/-- A tape that keeps what another one holds got nodes with the handles that come next. -/
theorem exists_of_records_eq_append {t t' : Tape} {more : List (Handle × Instruction)}
    (h : t'.records = t.records ++ more) :
    ∃ nodes, t'.nodes.toList = t.nodes.toList ++ nodes ∧ numbered t.size nodes = more := by
  obtain ⟨before, after, hnodes, hbefore, hafter⟩ := numbered_eq_append_iff.mp h
  have hsame : before = t.nodes.toList := by
    have hmap := congrArg (List.map Prod.snd) hbefore
    rwa [records_eq_numbered, map_snd_numbered, map_snd_numbered] at hmap
  subst hsame
  rw [Array.length_toList, Nat.zero_add] at hafter
  exact ⟨after, hnodes, hafter⟩

/-! ## Requests one by one -/

theorem yields_push {ε : Type} {instruction : Instruction} {t t' : Tape} {h : Handle} :
    (push instruction : Op ε Tape Handle).Yields t h t' ↔
      h = ⟨t.size⟩ ∧ t' = { t with nodes := t.nodes.push instruction } := by
  constructor
  · rintro ⟨hresult, rfl⟩
    cases hresult
    exact ⟨rfl, rfl⟩
  · rintro ⟨rfl, rfl⟩
    exact ⟨rfl, rfl⟩

theorem records_of_yields_push {ε : Type} {instruction : Instruction} {t t' : Tape} {h : Handle}
    (hpush : (push instruction : Op ε Tape Handle).Yields t h t') :
    t'.records = t.records ++ [(h, instruction)] := by
  obtain ⟨rfl, rfl⟩ := yields_push.mp hpush
  exact records_push t instruction

theorem state_requireAll (hs : List Handle) (t : Tape) : ((requireAll hs).run t).state = t := by
  induction hs with
  | nil => rfl
  | cons h rest ih =>
    apply preserves_bind (P := fun u => u = t)
    · rintro _ rfl
      exact require_state h _
    · rintro _ _ rfl
      exact ih
    · rfl

/-- The gradients of a concatenation stand one after the other, counted from the first. -/
theorem records_of_yields_pushes {ε : Type} {instruction : Nat → Instruction}
    {indices : List Nat} {t t' : Tape} {hs : List Handle}
    (h : (forEach (fun index => push (instruction index)) indices : Op ε Tape _).Yields t hs t') :
    t'.records = t.records ++ (hs.zip indices).map (fun entry => (entry.1, instruction entry.2)) ∧
      hs.length = indices.length := by
  induction indices generalizing t hs with
  | nil =>
    obtain ⟨rfl, rfl⟩ := yields_forEach_nil.mp h
    exact ⟨(List.append_nil _).symm, rfl⟩
  | cons index rest ih =>
    obtain ⟨first, u, more, hfirst, hrest, rfl⟩ := yields_forEach_cons.mp h
    obtain ⟨hrecords, hlength⟩ := ih hrest
    rw [hrecords, records_of_yields_push hfirst, List.append_assoc, List.length_cons, hlength]
    exact ⟨rfl, rfl⟩

end Tape

/-! ## The nodes of a request -/

namespace Call

/-- The nodes of a request with their handles.  The sum of a single gradient is that gradient,
and takes no node. -/
def records : Call → List (Handle × Instruction)
  | .forward kernel padding input answer => [(answer, .forward kernel padding input)]
  | .gradient node kernel source answer => [(answer, .gradient node kernel.label source)]
  | .concatenation inputs answer => [(answer, .concat inputs)]
  | .concatenationGradient node source answers =>
    answers.zipIdx.map fun entry => (entry.1, .concatGradient node entry.2 source)
  | .outputGradient output answer => [(answer, .outputGradient output)]
  | .accumulation gradients answer =>
    if gradients.length = 1 then [] else [(answer, .accumulate gradients)]
  | .refused => []

/-- A sum that takes no node is the gradient that it sums. -/
def Shared : Call → Prop
  | .accumulation gradients answer => ∀ single, gradients = [single] → answer = single
  | _ => True

end Call

namespace Tape

/-! ## Refusals -/

/-- A failure leaves the state as it was. -/
def Careful {ε σ α : Type} (x : Op ε σ α) : Prop := ∀ s e t, x.Fails s e t → t = s

theorem careful_fail {ε σ α : Type} (e : ε) : Careful (fail e : Op ε σ α) := by
  intro s e' t h
  exact (fails_fail.mp h).2

theorem not_fails_push {ε : Type} {instruction : Instruction} {t t' : Tape} {e : ε} :
    ¬ (push instruction : Op ε Tape Handle).Fails t e t' := by
  rintro ⟨hresult, -⟩
  cases hresult

theorem not_fails_pushes {ε : Type} {instruction : Nat → Instruction} {indices : List Nat}
    {t t' : Tape} {e : ε} :
    ¬ (forEach (fun index => push (instruction index)) indices : Op ε Tape _).Fails t e t' := by
  induction indices generalizing t with
  | nil => exact fun h => fails_pure.mp h
  | cons index rest ih =>
    intro h
    rcases fails_bind.mp h with hfirst | ⟨first, u, -, hrest⟩
    · exact not_fails_push hfirst
    rcases fails_bind.mp hrest with hmore | ⟨more, v, -, hpure⟩
    · exact ih hmore
    · exact fails_pure.mp hpure

theorem careful_push {ε : Type} (instruction : Instruction) :
    Careful (push instruction : Op ε Tape Handle) :=
  fun _ _ _ h => absurd h not_fails_push

/-- A check may fail, and what comes after it may. -/
theorem careful_bind {ε σ α δ : Type} {x : Op ε σ α} {f : α → Op ε σ δ}
    (hx : ∀ s, (x.run s).state = s) (hf : ∀ a, Careful (f a)) : Careful (x >>= f) := by
  intro s e t h
  rcases fails_bind.mp h with hfirst | ⟨a, u, hfirst, hrest⟩
  · rw [← hfirst.2, hx]
  · rw [hf a u e t hrest, ← hfirst.2, hx]

theorem careful_appendGradient (node : Handle) (kernel : Kernel) (source : Handle) :
    Careful (appendGradient node kernel source) := by
  refine careful_bind (require_state source) fun _ => careful_bind (fun _ => rfl) fun t => ?_
  split
  · split
    · exact careful_push _
    · exact careful_fail _
  · exact careful_fail _

theorem careful_appendConcatenation (inputs : List Handle) :
    Careful (appendConcatenation inputs) := by
  rw [appendConcatenation]
  split
  · exact careful_fail _
  · exact careful_bind (state_requireAll inputs) fun _ => careful_push _

theorem careful_appendConcatenationGradient (node source : Handle) :
    Careful (appendConcatenationGradient node source) := by
  refine careful_bind (require_state source) fun _ => careful_bind (fun _ => rfl) fun t => ?_
  split
  · exact fun _ _ _ h => absurd h not_fails_pushes
  · exact careful_fail _

theorem careful_appendOutputGradient (output : Handle) : Careful (appendOutputGradient output) :=
  careful_bind (require_state output) fun _ => careful_push _

theorem careful_appendAccumulation (gradients : List Handle) :
    Careful (appendAccumulation gradients) := by
  unfold appendAccumulation
  split
  · exact careful_fail _
  · refine careful_bind (require_state _) fun _ s e t h => ?_
    cases fails_pure.mp h
  · exact careful_bind (state_requireAll gradients) fun _ => careful_push _

theorem careful_appendForward (kernel : Kernel) (padding : PaddingPolicy) (input : Handle) :
    Careful (appendForward kernel padding input) := by
  refine careful_bind ?_ fun _ => careful_bind (fun _ => rfl) fun s => ?_
  · rintro ⟨t, store⟩
    exact congrArg (·, store) (require_state input t)
  by_cases hrefuses : s.1.refuses kernel.label = true
  · simp only [hrefuses, if_true]
    exact careful_fail _
  simp only [hrefuses, Bool.false_eq_true, if_false]
  -- The store may change, but from here on nothing fails.
  have hlast : ∀ u e v, ¬ (zoom Prod.fst (fun t s => (t, s.2))
      (push (.forward kernel padding input)) :
        Op BackendFault (Tape × Option ParamStore) Handle).Fails u e v := by
    intro u e v h
    obtain ⟨w, hfail, -⟩ := fails_zoom.mp h
    exact not_fails_push hfail
  split
  · intro u e v h
    rcases fails_bind.mp h with hset | ⟨_, _, -, hpush⟩
    · cases fails_set.mp hset
    · exact absurd hpush (hlast _ _ _)
  · exact fun u e v h => absurd h (hlast u e v)

end Tape

/-! ## The tape under observation -/

namespace Tape

/-- What a request that is granted adds to the tape. -/
def Appends {α : Type} (call : α → Call) (x : Op BackendFault Tape α) : Prop :=
  ∀ t a t', x.Yields t a t' → t'.records = t.records ++ (call a).records ∧ (call a).Shared

theorem appends_bind {α δ : Type} {x : Op BackendFault Tape δ} {f : δ → Op BackendFault Tape α}
    {call : α → Call} (hx : ∀ t, (x.run t).state = t) (hf : ∀ d, Appends call (f d)) :
    Appends call (x >>= f) := by
  intro t a t' h
  obtain ⟨d, u, hfirst, hrest⟩ := yields_bind.mp h
  have hu : u = t := by rw [← hfirst.2, hx]
  rw [← hu]
  exact hf d u a t' hrest

theorem appends_fail {α : Type} {call : α → Call} (e : BackendFault) :
    Appends call (fail e : Op BackendFault Tape α) := by
  intro t a t' h
  cases yields_fail.mp h

theorem appends_push {call : Handle → Call} {instruction : Instruction}
    (hcall : ∀ a, (call a).records = [(a, instruction)] ∧ (call a).Shared) :
    Appends call (push instruction) := by
  intro t a t' h
  rw [records_of_yields_push h, (hcall a).1]
  exact ⟨rfl, (hcall a).2⟩

theorem appends_appendGradient (node : Handle) (kernel : Kernel) (source : Handle) :
    Appends (.gradient node kernel source) (appendGradient node kernel source) := by
  refine appends_bind (require_state source) fun _ => appends_bind (fun _ => rfl) fun t => ?_
  split
  · split
    · exact appends_push fun _ => ⟨rfl, trivial⟩
    · exact appends_fail _
  · exact appends_fail _

theorem appends_appendConcatenation (inputs : List Handle) :
    Appends (.concatenation inputs) (appendConcatenation inputs) := by
  rw [appendConcatenation]
  split
  · exact appends_fail _
  · refine appends_bind (state_requireAll inputs) fun _ => ?_
    exact appends_push fun _ => ⟨rfl, trivial⟩

theorem appends_appendConcatenationGradient (node source : Handle) :
    Appends (.concatenationGradient node source) (appendConcatenationGradient node source) := by
  refine appends_bind (require_state source) fun _ => appends_bind (fun _ => rfl) fun t => ?_
  split
  · intro u answers u' h
    obtain ⟨hrecords, hlength⟩ := records_of_yields_pushes h
    rw [List.length_range] at hlength
    rw [hrecords, ← hlength, List.range_eq_range', ← List.zipIdx_eq_zip_range']
    exact ⟨rfl, trivial⟩
  · exact appends_fail _

theorem appends_appendOutputGradient (output : Handle) :
    Appends (.outputGradient output) (appendOutputGradient output) :=
  appends_bind (require_state output) fun _ => appends_push fun _ => ⟨rfl, trivial⟩

theorem appends_appendAccumulation (gradients : List Handle) :
    Appends (.accumulation gradients) (appendAccumulation gradients) := by
  unfold appendAccumulation
  split
  · exact appends_fail _
  · next single =>
    refine appends_bind (require_state single) fun _ t a t' h => ?_
    obtain ⟨rfl, rfl⟩ := yields_pure.mp h
    refine ⟨(List.append_nil _).symm, ?_⟩
    -- The answer for a single gradient is that gradient: no node is added.
    rintro other heq
    exact (List.singleton_inj.mp heq)
  · next hnil hmany =>
    refine appends_bind (state_requireAll gradients) fun _ => appends_push fun a => ⟨?_, ?_⟩
    · have hlength : gradients.length ≠ 1 := by
        intro hone
        obtain ⟨single, rfl⟩ := List.length_eq_one_iff.mp hone
        exact hmany single rfl
      exact if_neg hlength
    · rintro single rfl
      exact absurd rfl (hmany single)

theorem appends_appendForward {kernel : Kernel} {padding : PaddingPolicy} {input node : Handle}
    {t t' : Tape} {store store' : Option ParamStore}
    (h : (appendForward kernel padding input).Yields (t, store) node (t', store')) :
    t'.records = t.records ++ [(node, .forward kernel padding input)] := by
  obtain ⟨_, s, hzoom, h⟩ := yields_bind.mp h
  obtain ⟨u, hrequire, rfl⟩ := yields_zoom.mp hzoom
  obtain rfl : u = t := by rw [← hrequire.2, require_state]
  replace h := yields_get_bind.mp h
  by_cases hrefuses : u.refuses kernel.label = true
  · simp [hrefuses] at h
  simp only [hrefuses, Bool.false_eq_true, if_false] at h
  -- Whether or not the store is filled on the way, one node is pushed.
  have hlast : ∀ s : Tape × Option ParamStore, s.1 = u →
      (zoom Prod.fst (fun t s => (t, s.2)) (push (.forward kernel padding input)) :
        Op BackendFault (Tape × Option ParamStore) Handle).Yields s node (t', store') →
      t'.records = u.records ++ [(node, .forward kernel padding input)] := by
    rintro s rfl hpush
    obtain ⟨v, hpush, heq⟩ := yields_zoom.mp hpush
    rw [show t' = v from congrArg Prod.fst heq]
    exact records_of_yields_push hpush
  split at h
  · obtain ⟨_, v, hset, hpush⟩ := yields_bind.mp h
    rw [yields_set.mp hset] at hpush
    exact hlast _ rfl hpush
  · exact hlast _ rfl h

end Tape

namespace Observed

/-- The tape holds the nodes of the requests, after those that it held before. -/
structure Recorded (base : List (Handle × Instruction)) (o : Observed Tape) : Prop where
  records : o.inner.records = base ++ o.calls.flatMap Call.records
  shared : ∀ call ∈ o.calls, call.Shared

variable {base : List (Handle × Instruction)}

theorem Recorded.append {o : Observed Tape} (h : o.Recorded base) {t : Tape} {call : Call}
    (hrecords : t.records = o.inner.records ++ call.records) (hshared : call.Shared) :
    Recorded base ⟨t, o.calls ++ [call]⟩ where
  records := by
    show t.records = _
    rw [hrecords, h.records, List.flatMap_append, List.append_assoc]
    simp
  shared := by
    intro other hother
    rcases List.mem_append.mp hother with hother | hother
    · exact h.shared other hother
    · rw [List.mem_singleton.mp hother]
      exact hshared

theorem Recorded.refuse {o : Observed Tape} (h : o.Recorded base) :
    Recorded base ⟨o.inner, o.calls ++ [.refused]⟩ :=
  h.append (List.append_nil _).symm trivial

theorem recorded_watchPlain {α : Type} {call : α → Call} {x : Op BackendFault Tape α}
    (hcareful : Tape.Careful x) (happends : Tape.Appends call x) :
    Preserves (Recorded base) (watchPlain call x) := by
  intro o h
  show Recorded base ⟨(x.run o.inner).state, o.calls ++ [callOf call (x.run o.inner).result]⟩
  -- What is granted appends its nodes, what is refused appends none.
  rcases yields_or_fails x o.inner with ⟨a, hyields⟩ | ⟨e, hfails⟩
  · obtain ⟨hrecords, hshared⟩ := happends _ _ _ hyields
    rw [hyields.1]
    exact h.append hrecords hshared
  · rw [hcareful _ _ _ hfails, hfails.1]
    exact h.refuse

/-- A kernel is recorded whatever becomes of the store. -/
theorem recorded_appendForward {o : Observed Tape} (h : o.Recorded base) (kernel : Kernel)
    (padding : PaddingPolicy) (input : Handle) (store : Option ParamStore) :
    Recorded base ((Backend.appendForward kernel padding input :
      Op BackendFault (Observed Tape × Option ParamStore) Handle).run (o, store)).state.1 := by
  rcases hrun : (Tape.appendForward kernel padding input).run (o.inner, store) with
    ⟨result, ⟨t, filled⟩, log⟩
  show Recorded base ⟨((Tape.appendForward kernel padding input).run (o.inner, store)).state.1,
    o.calls ++ [callOf (.forward kernel padding input)
      ((Tape.appendForward kernel padding input).run (o.inner, store)).result]⟩
  rw [hrun]
  cases result with
  | ok node =>
    have hyields : (Tape.appendForward kernel padding input).Yields (o.inner, store) node
        (t, filled) := ⟨by rw [hrun], by rw [hrun]⟩
    exact h.append (Tape.appends_appendForward hyields) trivial
  -- The tape is as it was: a request that is refused adds no node.
  | error e =>
    have hfails : (Tape.appendForward kernel padding input).Fails (o.inner, store) e
        (t, filled) := ⟨by rw [hrun], by rw [hrun]⟩
    have hsame := Tape.careful_appendForward kernel padding input _ _ _ hfails
    rw [show t = o.inner from congrArg Prod.fst hsame]
    exact h.refuse

theorem related_of_preserves {ε σ α : Type} {P : σ → Prop} {x : Op ε σ α} (h : Preserves P x) :
    Related (fun s t => s = t ∧ P s) x x := by
  rintro s t ⟨rfl, hs⟩
  exact ⟨rfl, rfl, h s hs⟩

/-- Whatever is built on the tape, it holds the nodes of the requests made of it. -/
theorem alike_recorded :
    Backend.Alike (fun o o' : Observed Tape => o = o' ∧ o.Recorded base) where
  appendForward kernel padding input := by
    rintro ⟨o, store⟩ ⟨o', store'⟩ ⟨⟨rfl, h⟩, rfl⟩
    exact ⟨rfl, ⟨rfl, recorded_appendForward h kernel padding input store⟩, rfl⟩
  appendGradient node kernel source := related_of_preserves <|
    recorded_watchPlain (Tape.careful_appendGradient node kernel source)
      (Tape.appends_appendGradient node kernel source)
  appendConcatenation inputs := related_of_preserves <|
    recorded_watchPlain (Tape.careful_appendConcatenation inputs)
      (Tape.appends_appendConcatenation inputs)
  appendConcatenationGradient node source := related_of_preserves <|
    recorded_watchPlain (Tape.careful_appendConcatenationGradient node source)
      (Tape.appends_appendConcatenationGradient node source)
  appendOutputGradient output := related_of_preserves <|
    recorded_watchPlain (Tape.careful_appendOutputGradient output)
      (Tape.appends_appendOutputGradient output)
  appendAccumulation gradients := related_of_preserves <|
    recorded_watchPlain (Tape.careful_appendAccumulation gradients)
      (Tape.appends_appendAccumulation gradients)

end Observed

end LayerFlow
