/-
LayerFlow.Proofs.Flow.Stores

What forward builds on the tape do to parameter stores.  A layer with learned parameters gets a
store that is large enough for the channels of its input: buffers that are long enough stay, others
become zeros.  Nothing else of a layer changes, and a build that fails loses no more than one that
succeeds.

Main statements: `yields_buildForward_refills`, what a build that succeeds leaves of the layers, and
`keepsLayers_buildForward`, what every build leaves of them.
-/
import LayerFlow.Proofs.Backend.Recording
import LayerFlow.Proofs.Flow.Reachable

namespace LayerFlow

open Op

/-! ## Stores -/

namespace ParamStore

/-- A store later on: it has at least as many channels and the same owner, and buffers that are
still long enough have their values. -/
structure Keeps (s s' : ParamStore) : Prop where
  channelCount : s.channelCount ≤ s'.channelCount
  owner : s'.owner = s.owner
  buffers : ∀ name buffer, s.buffer? name = some buffer → s'.channelCount ≤ buffer.length →
    s'.buffer? name = some buffer

instance : IsPreorder ParamStore Keeps where
  refl _ := ⟨Nat.le_refl _, rfl, fun _ _ hbuffer _ => hbuffer⟩
  trans _ _ _ h h' := ⟨h.channelCount.trans h'.channelCount, h'.owner.trans h.owner,
    fun name buffer hbuffer hlong => h'.buffers name buffer
      (h.buffers name buffer hbuffer (h'.channelCount.trans hlong)) hlong⟩

/-- A store once the buffers with some names were used for a number of channels. -/
structure Refilled (names : List String) (channels : Nat) (s s' : ParamStore) : Prop where
  channelCount : s'.channelCount = max s.channelCount channels
  owner : s'.owner = s.owner
  kept : ∀ name ∈ names, ∀ buffer, s.buffer? name = some buffer →
    s'.channelCount ≤ buffer.length → s'.buffer? name = some buffer
  zeros : ∀ name ∈ names, (∀ buffer, s.buffer? name = some buffer →
    buffer.length < s'.channelCount) →
    s'.buffer? name = some (List.replicate s'.channelCount .zero)
  others : ∀ name ∉ names, s'.buffer? name = s.buffer? name

variable {names : List String} {channels : Nat} {s s' : ParamStore}

theorem used_of_long {name : String} {buffer : List Binary32} (h : s.buffer? name = some buffer)
    (hlong : s.channelCount ≤ buffer.length) : s.used name = buffer := by
  rw [used, h, Option.getD_some, if_neg (Nat.not_lt.mpr hlong)]

theorem used_of_short {name : String}
    (h : ∀ buffer, s.buffer? name = some buffer → buffer.length < s.channelCount) :
    s.used name = List.replicate s.channelCount .zero := by
  rw [used]
  cases hbuffer : s.buffer? name with
  | some buffer => rw [Option.getD_some, if_pos (h buffer hbuffer)]
  | none =>
    -- A buffer that never was is empty, which is long enough for no channels only.
    rw [Option.getD_none]
    split
    · rfl
    · next hlong =>
      rw [Nat.eq_zero_of_not_pos hlong]
      rfl

theorem refilled_touchAll (names : List String) (channels : Nat) (s : ParamStore) :
    s.Refilled names channels ((s.growTo channels).touchAll names) where
  channelCount := channelCount_touchAll _ _
  owner := owner_touchAll _ _
  kept name hname buffer hbuffer hlong := by
    rw [channelCount_touchAll] at hlong
    rw [touchAll_buffer?, if_pos hname, used_of_long (s := s.growTo channels) hbuffer hlong]
  zeros name hname hshort := by
    rw [channelCount_touchAll] at hshort ⊢
    rw [touchAll_buffer?, if_pos hname, used_of_short hshort]
  others name hname := by
    rw [touchAll_buffer?, if_neg hname]
    rfl

theorem keeps_growTo (s : ParamStore) (channels : Nat) : s.Keeps (s.growTo channels) :=
  ⟨Nat.le_max_left _ _, rfl, fun _ _ hbuffer _ => hbuffer⟩

theorem Refilled.keeps (h : s.Refilled names channels s') : s.Keeps s' := by
  refine ⟨?_, h.owner, fun name buffer hbuffer hlong => ?_⟩
  · rw [h.channelCount]
    exact Nat.le_max_left _ _
  · by_cases hname : name ∈ names
    · exact h.kept name hname buffer hbuffer hlong
    · rw [h.others name hname, hbuffer]

/-- A store with buffers that are long enough for a number of channels. -/
structure Full (names : List String) (channels : Nat) (s : ParamStore) : Prop where
  channels : channels ≤ s.channelCount
  buffers : ∀ name ∈ names, ∃ buffer, s.buffer? name = some buffer ∧
    s.channelCount ≤ buffer.length

theorem Refilled.full (h : s.Refilled names channels s') : s'.Full names channels := by
  refine ⟨?_, fun name hname => ?_⟩
  · rw [h.channelCount]
    exact Nat.le_max_right _ _
  · by_cases hlong : ∃ buffer, s.buffer? name = some buffer ∧ s'.channelCount ≤ buffer.length
    · obtain ⟨buffer, hbuffer, hlong⟩ := hlong
      exact ⟨buffer, h.kept name hname buffer hbuffer hlong, hlong⟩
    · refine ⟨_, h.zeros name hname fun buffer hbuffer => ?_, by simp⟩
      exact Nat.lt_of_not_le fun hle => hlong ⟨buffer, hbuffer, hle⟩

theorem Full.growTo_eq (h : s.Full names channels) : s.growTo channels = s := by
  rw [growTo, Nat.max_eq_left h.channels]

theorem touch_eq_self {name : String} {buffer : List Binary32}
    (h : s.buffer? name = some buffer) (hlong : s.channelCount ≤ buffer.length) :
    s.touch name = s := by
  rw [touch, used_of_long h hlong, Dictionary.insert_eq_self h]

theorem Full.touchAll_eq (h : s.Full names channels) : s.touchAll names = s := by
  induction names with
  | nil => rfl
  | cons name rest ih =>
    obtain ⟨buffer, hbuffer, hlong⟩ := h.buffers name List.mem_cons_self
    show (s.touch name).touchAll rest = s
    rw [touch_eq_self hbuffer hlong]
    exact ih ⟨h.channels, fun name hname => h.buffers name (List.mem_cons_of_mem _ hname)⟩

end ParamStore

/-! ## Layers -/

namespace Layer

/-- A layer once its node was appended for an input: of a normalization with learned parameters the
store was used for the channels of the input, any other layer is as it was. -/
inductive Refilled (input : Shape) : Layer → Layer → Prop
  | learned {n : Normalization} {store : ParamStore}
      (hkind : n.kind = .batch ∨ n.kind = .perInstance)
      (hstore : n.store.Refilled n.kind.parameterNames (Size.ofExtent input.channels) store) :
      Refilled input (.normalization n) (.normalization { n with store := store })
  | other {l : Layer} (h : ∀ n, l = .normalization n → n.kind ≠ .batch ∧ n.kind ≠ .perInstance) :
      Refilled input l l

/-- A layer later on: nothing of it changed but, for a normalization with learned parameters, the
store. -/
inductive Keeps : Layer → Layer → Prop
  | same (l : Layer) : Keeps l l
  | learned {n : Normalization} {store : ParamStore}
      (hkind : n.kind = .batch ∨ n.kind = .perInstance) (hstore : n.store.Keeps store) :
      Keeps (.normalization n) (.normalization { n with store := store })

instance : IsPreorder Layer Keeps where
  refl := .same
  trans _ _ _ h h' := by
    cases h with
    | same => exact h'
    | learned hkind hstore =>
      cases h' with
      | same => exact .learned hkind hstore
      | learned hkind' hstore' => exact .learned hkind (IsTrans.trans _ _ _ hstore hstore')

theorem Refilled.keeps {input : Shape} {l l' : Layer} (h : l.Refilled input l') : l.Keeps l' := by
  cases h with
  | learned hkind hstore => exact .learned hkind hstore.keeps
  | other => exact .same l

theorem kind_of_kernel {l : Layer} {input : Shape} {kernel : Kernel}
    (h : l.kernel input = .ok kernel) : kernel.kind = l.kernelKind input := by
  rw [Layer.kernel] at h
  split at h
  · obtain ⟨output, -, heq⟩ := Traversal.bind_eq_ok_iff.mp h
    rw [Traversal.pure_eq_ok_iff.mp heq]
  · cases h

theorem hasParameters_iff {kind : NormalizationKind} :
    kind.hasParameters = true ↔ kind = .batch ∨ kind = .perInstance := by
  cases kind <;> simp [NormalizationKind.hasParameters, NormalizationKind.parameterNames]

end Layer

/-! ## The tape -/

namespace Tape

/-- The buffers that the tape uses for a kernel. -/
def usedNames (kernel : Kernel) : List String :=
  match kernel.kind with
  | .normalization kind _ _ _ _ => kind.parameterNames
  | _ => []

/-- What a request that is granted does to the store that comes along. -/
def filled (kernel : Kernel) (store : Option ParamStore) : Option ParamStore :=
  store.map fun found => found.touchAll (usedNames kernel)

theorem store_of_yields_appendForward {kernel : Kernel} {padding : PaddingPolicy}
    {input node : Handle} {s s' : Tape × Option ParamStore}
    (h : (appendForward kernel padding input).Yields s node s') : s'.2 = filled kernel s.2 := by
  obtain ⟨_, _, hrequire, h⟩ := yields_bind.mp h
  obtain ⟨t, -, rfl⟩ := yields_zoom.mp hrequire
  replace h := yields_get_bind.mp h
  dsimp only at h
  split at h
  · simp at h
  split at h
  · next hkind hstore =>
    obtain ⟨_, v, hset, hpush⟩ := yields_bind.mp h
    obtain ⟨u, -, rfl⟩ := yields_zoom.mp hpush
    rw [yields_set.mp hset, filled, usedNames, hkind, hstore]
    rfl
  · next hnone =>
    -- Without a store, or without learned parameters, there is nothing to use.
    obtain ⟨u, -, rfl⟩ := yields_zoom.mp h
    show s.2 = filled kernel s.2
    cases hstore : s.2 with
    | none => rfl
    | some found =>
      cases hkind : kernel.kind with
      | normalization => exact (hnone _ _ _ _ _ _ hkind hstore).elim
      | _ =>
        rw [filled, usedNames, hkind]
        rfl

end Tape

namespace Layer

/-- The kinds without learned parameters have no store to prepare. -/
theorem prepareStore_of_other {l : Layer}
    (h : ∀ n, l = .normalization n → n.kind ≠ .batch ∧ n.kind ≠ .perInstance) (input : Shape) :
    l.prepareStore input = none := by
  cases l with
  | normalization n =>
    obtain ⟨hbatch, hinstance⟩ := h n rfl
    have hnone : ¬ n.kind.hasParameters = true := fun hkind =>
      (hasParameters_iff.mp hkind).elim hbatch hinstance
    exact if_neg hnone
  | _ => rfl

theorem prepareStore_of_learned {n : Normalization}
    (h : n.kind = .batch ∨ n.kind = .perInstance) (input : Shape) :
    (normalization n).prepareStore input =
      some (n.store.growTo (Size.ofExtent input.channels)) :=
  if_pos (hasParameters_iff.mpr h)

theorem withStore_none (l : Layer) : l.withStore none = l := by
  cases l <;> rfl

/-- Either builds fill the store of a layer, or there is none to fill. -/
theorem learned_or_other (l : Layer) :
    (∃ n, l = .normalization n ∧ (n.kind = .batch ∨ n.kind = .perInstance)) ∨
      ∀ n, l = .normalization n → n.kind ≠ .batch ∧ n.kind ≠ .perInstance := by
  by_cases h : ∃ n, l = .normalization n ∧ (n.kind = .batch ∨ n.kind = .perInstance)
  · exact .inl h
  · refine .inr fun n hn => ?_
    exact not_or.mp fun hkind => h ⟨n, hn, hkind⟩

theorem usedNames_of_kernel {n : Normalization} {input : Shape} {kernel : Kernel}
    (h : (normalization n).kernel input = .ok kernel) :
    Tape.usedNames kernel = n.kind.parameterNames := by
  rw [Tape.usedNames, kind_of_kernel h]
  rfl

/-- What the tape leaves of a layer of which it granted the node. -/
theorem refilled_filled {l : Layer} {input : Shape} {kernel : Kernel}
    (h : l.kernel input = .ok kernel) :
    l.Refilled input (l.withStore (Tape.filled kernel (l.prepareStore input))) := by
  rcases learned_or_other l with ⟨n, rfl, hkind⟩ | hother
  · rw [prepareStore_of_learned hkind, Tape.filled, usedNames_of_kernel h]
    exact .learned hkind (ParamStore.refilled_touchAll _ _ _)
  · rw [prepareStore_of_other hother, Tape.filled, Option.map_none, withStore_none]
    exact .other hother

/-- What the tape leaves of a layer of which it refused the node. -/
theorem keeps_prepared (l : Layer) (input : Shape) :
    l.Keeps (l.withStore (l.prepareStore input)) := by
  rcases learned_or_other l with ⟨n, rfl, hkind⟩ | hother
  · rw [prepareStore_of_learned hkind]
    exact .learned hkind (ParamStore.keeps_growTo _ _)
  · rw [prepareStore_of_other hother, withStore_none]
    exact .same l

/-- The store of a layer need not change for an input. -/
def Suits (input : Shape) (l : Layer) : Prop :=
  ∀ n, l = .normalization n → n.kind = .batch ∨ n.kind = .perInstance →
    n.store.Full n.kind.parameterNames (Size.ofExtent input.channels)

theorem Suits.fixed {input : Shape} {l : Layer} (h : l.Suits input) :
    l.withStore (l.prepareStore input) = l ∧ ∀ kernel, l.kernel input = .ok kernel →
      l.withStore (Tape.filled kernel (l.prepareStore input)) = l := by
  rcases learned_or_other l with ⟨n, rfl, hkind⟩ | hother
  · have hfull := h n rfl hkind
    have hprepared : (normalization n).prepareStore input = some n.store :=
      (prepareStore_of_learned hkind input).trans (congrArg some hfull.growTo_eq)
    refine ⟨by rw [hprepared]; rfl, fun kernel hkernel => ?_⟩
    rw [hprepared, Tape.filled, usedNames_of_kernel hkernel, Option.map_some, hfull.touchAll_eq]
    rfl
  · rw [prepareStore_of_other hother]
    exact ⟨withStore_none l, fun kernel _ => withStore_none l⟩

/-- Once the store of a layer was used for an input, it suits that input. -/
theorem Refilled.suits {input : Shape} {l l' : Layer} (h : l.Refilled input l') :
    l'.Suits input := by
  rintro n rfl hkind
  cases h with
  | learned _ hstore => exact hstore.full
  | other hother => exact (hkind.elim (hother n rfl).1 (hother n rfl).2).elim

theorem store_of_yields_appendForward {l : Layer} {s' : Layer × Tape} {input : Shape}
    {current node : Handle} {t : Tape}
    (h : (appendForward input current).Yields (l, t) node s') :
    ∃ kernel, l.kernel input = .ok kernel ∧
      s'.1 = l.withStore (Tape.filled kernel (l.prepareStore input)) := by
  obtain ⟨kernel, store, hkernel, hnode, hstore⟩ := granted_of_yields_appendForward h
  have hfilled : store = Tape.filled kernel (l.prepareStore input) :=
    Tape.store_of_yields_appendForward hnode
  exact ⟨kernel, hkernel, by rw [hstore, hfilled]⟩

/-- A layer of which the node is not granted is as it was, or its store was prepared. -/
theorem store_of_fails_appendForward {l : Layer} {s' : Layer × Tape} {input : Shape}
    {current : Handle} {t : Tape} {e : Failure}
    (h : (appendForward input current).Fails (l, t) e s') :
    s'.1 = l ∨ s'.1 = l.withStore (l.prepareStore input) := by
  rcases refused_of_fails_appendForward h with
    ⟨-, hsame, -⟩ | ⟨kernel, store, fault, -, -, hfails, hstore⟩
  · exact .inl hsame
  · have hprepared : store = l.prepareStore input :=
      congrArg Prod.snd (Tape.careful_appendForward _ _ _ _ _ _ hfails)
    exact .inr (by rw [hstore, hprepared])

/-- A node that is granted leaves the layer with a store that was used for its input. -/
theorem refilled_of_yields_appendForward {l : Layer} {s' : Layer × Tape} {input : Shape}
    {current node : Handle} {t : Tape}
    (h : (appendForward input current).Yields (l, t) node s') : l.Refilled input s'.1 := by
  obtain ⟨kernel, hkernel, hstore⟩ := store_of_yields_appendForward h
  rw [hstore]
  exact refilled_filled hkernel

theorem keeps_appendForward (input : Shape) (current : Handle) (l : Layer) (t : Tape) :
    l.Keeps ((appendForward input current).run (l, t)).state.1 := by
  rcases yields_or_fails (appendForward input current) (l, t) with ⟨node, h⟩ | ⟨e, h⟩
  · exact (refilled_of_yields_appendForward h).keeps
  · rcases store_of_fails_appendForward h with hstore | hstore
    · rw [hstore]
      exact .same l
    · rw [hstore]
      exact keeps_prepared l input

/-- A layer whose store suits the input is as it was, whether its node is granted or not. -/
theorem Suits.run_appendForward {input : Shape} {l : Layer} (h : l.Suits input)
    (current : Handle) (t : Tape) :
    ((appendForward input current).run (l, t)).state.1 = l := by
  obtain ⟨hprepared, hfilled⟩ := h.fixed
  rcases yields_or_fails (appendForward input current) (l, t) with ⟨node, h⟩ | ⟨e, h⟩
  · obtain ⟨kernel, hkernel, hstore⟩ := store_of_yields_appendForward h
    rw [hstore, hfilled kernel hkernel]
  · rcases store_of_fails_appendForward h with hstore | hstore
    · exact hstore
    · rw [hstore, hprepared]

end Layer

/-! ## Chains of layers -/

namespace Flow

/-- Layers as their nodes leave them, each with its input shape. -/
inductive RefilledAll : List Shape → List Layer → List Layer → Prop
  | nil : RefilledAll [] [] []
  | cons {shape : Shape} {shapes : List Shape} {l l' : Layer} {layers layers' : List Layer}
      (hfirst : l.Refilled shape l') (hrest : RefilledAll shapes layers layers') :
      RefilledAll (shape :: shapes) (l :: layers) (l' :: layers')

theorem refilledAll_of_yields_appendLayers {shapes : List Shape} {layers layers' : List Layer}
    {start : Handle} {nodes : List Handle} {t t' : Tape} (hlength : shapes.length = layers.length)
    (h : (appendLayers shapes start).Yields (layers, t) nodes (layers', t')) :
    RefilledAll shapes layers layers' := by
  induction shapes generalizing layers layers' start nodes t with
  | nil =>
    obtain rfl := List.eq_nil_of_length_eq_zero hlength.symm
    obtain ⟨-, hstate⟩ := yields_pure.mp h
    cases hstate
    exact .nil
  | cons shape shapes ih =>
    cases layers with
    | nil => cases hlength
    | cons l rest =>
      obtain ⟨node, l', u, more, rest', hfirst, hmore, rfl, rfl⟩ := yields_appendLayers_cons h
      exact .cons (Layer.refilled_of_yields_appendForward hfirst)
        (ih (by simpa using hlength) hmore)

theorem keeps_appendLayers (shapes : List Shape) (start : Handle) (layers : List Layer)
    (t : Tape) : List.Forall₂ Layer.Keeps layers
      ((appendLayers shapes start).run (layers, t)).state.1 := by
  induction shapes generalizing layers start t with
  | nil => exact List.forall₂_refl layers
  | cons shape shapes ih =>
    cases layers with
    | nil => exact .nil
    | cons l rest =>
      obtain ⟨rest', heq, hrest⟩ := layers_appendLayers_cons shape shapes start l rest t
      rw [heq]
      refine .cons (Layer.keeps_appendForward shape start l t) ?_
      rcases hrest with rfl | ⟨node, u, rfl⟩
      · exact List.forall₂_refl _
      · exact ih node rest u

theorem RefilledAll.suits {shapes : List Shape} {layers layers' : List Layer}
    (h : RefilledAll shapes layers layers') : List.Forall₂ Layer.Suits shapes layers' := by
  induction h with
  | nil => exact .nil
  | cons hfirst hrest ih => exact .cons hfirst.suits ih

/-- Layers whose stores suit their inputs are as they were, however building them ends. -/
theorem run_appendLayers_of_suits {shapes : List Shape} {layers : List Layer}
    (h : List.Forall₂ Layer.Suits shapes layers) (start : Handle) (t : Tape) :
    ((appendLayers shapes start).run (layers, t)).state.1 = layers := by
  induction h generalizing start t with
  | nil => rfl
  | @cons shape l shapes layers hfirst hrest ih =>
    obtain ⟨rest', heq, hunchanged⟩ := layers_appendLayers_cons shape shapes start l layers t
    rw [heq, hfirst.run_appendForward]
    rcases hunchanged with rfl | ⟨node, u, rfl⟩
    · rfl
    · rw [ih]

/-! ## Forward builds -/

section

variable {β : Type} [Backend β]

/-- A forward build that succeeds has built the layers, and set the stage. -/
theorem layers_of_yields_buildForward {f f' : Flow} {raw : List Handle}
    {outputs : List (Option Handle)} {alignment : Nat} {output : Handle} {b b' : β}
    (h : (buildForward raw outputs alignment).Yields (f, b) output (f', b')) :
    ∃ (start : Handle) (b₁ : β) (nodes : List Handle) (b₂ : β) (stage : BuildState),
      (appendLayers f.shapes.layerInputs start).Yields (f.layers, b₁) nodes (f'.layers, b₂) ∧
      f' = { f with layers := f'.layers, state := stage } := by
  simp only [buildForward, yields_bind, yields_get, yields_ofExcept, yields_say, yields_modify,
    yields_pure] at h
  obtain ⟨_, _, ⟨rfl, rfl⟩, _, _, ⟨-, rfl⟩, sources, _, ⟨-, rfl⟩, ⟨fusion, start⟩, u, hzoom,
    nodes, v, hzoom', _, _, rfl, _, _, rfl, -, heq⟩ := h
  obtain ⟨b₁, -, rfl⟩ := yields_zoom.mp hzoom
  obtain ⟨⟨layers', b₂⟩, hlayers, rfl⟩ := yields_zoom.mp hzoom'
  cases heq
  exact ⟨start, b₁, nodes, b₂, _, hlayers, rfl⟩

/-- A forward build that fails did so before the layers, or among them once the sources were
brought together. -/
theorem layers_of_fails_buildForward {f f' : Flow} {raw : List Handle}
    {outputs : List (Option Handle)} {alignment : Nat} {e : Failure} {b b' : β}
    (h : (buildForward raw outputs alignment).Fails (f, b) e (f', b')) :
    f' = f ∨ ∃ (sources : List Handle) (fusion : Option FusionNodes) (start : Handle) (b₁ : β)
      (layers' : List Layer), f.checkForward = .ok () ∧
      (f.appendFusion sources alignment).Yields b (fusion, start) b₁ ∧
      (appendLayers f.shapes.layerInputs start).Fails (f.layers, b₁) e (layers', b') ∧
      f' = { f with layers := layers' } := by
  simp only [buildForward, fails_bind, yields_get, yields_ofExcept, fails_get, fails_ofExcept,
    fails_say, fails_modify, fails_pure, and_false, exists_false, or_false, false_or] at h
  obtain ⟨_, _, ⟨rfl, rfl⟩, ⟨-, heq⟩ | ⟨_, _, ⟨hcheck, rfl⟩, h⟩⟩ := h
  · exact .inl (congrArg Prod.fst heq)
  obtain ⟨-, heq⟩ | ⟨sources, _, ⟨-, rfl⟩, h⟩ := h
  · exact .inl (congrArg Prod.fst heq)
  obtain hfusion | ⟨⟨fusion, start⟩, _, hfusion, hzoom⟩ := h
  · obtain ⟨u, -, heq⟩ := fails_zoom.mp hfusion
    exact .inl (congrArg Prod.fst heq)
  · obtain ⟨b₁, hsources, rfl⟩ := yields_zoom.mp hfusion
    obtain ⟨⟨layers', b₂⟩, hlayers, heq⟩ := fails_zoom.mp hzoom
    cases heq
    exact .inr ⟨sources, fusion, start, b₁, layers', hcheck, hsources, hlayers, rfl⟩

/-- However a forward build ends, it changes nothing of a flow but its stage and what building the
layers changes of them. -/
theorem layers_of_buildForward (f : Flow) (b : β) (raw : List Handle)
    (outputs : List (Option Handle)) (alignment : Nat) :
    ((buildForward raw outputs alignment).run (f, b)).state.1 = f ∨
      ∃ (start : Handle) (b₁ : β) (stage : BuildState),
      ((buildForward raw outputs alignment).run (f, b)).state.1 =
        { f with
          layers := ((appendLayers f.shapes.layerInputs start).run (f.layers, b₁)).state.1
          state := stage } := by
  rcases yields_or_fails (buildForward raw outputs alignment) (f, b) with ⟨output, h⟩ | ⟨e, h⟩
  · obtain ⟨start, b₁, nodes, b₂, stage, hlayers, heq⟩ := layers_of_yields_buildForward h
    refine .inr ⟨start, b₁, stage, heq.trans ?_⟩
    rw [hlayers.2]
  · rcases layers_of_fails_buildForward h with heq | ⟨_, _, start, b₁, layers', -, -, hlayers, heq⟩
    · exact .inl heq
    · refine .inr ⟨start, b₁, f.state, heq.trans ?_⟩
      rw [hlayers.2]

end

/-- A flow later on: nothing of its layers changed but the stores of those that have learned
parameters. -/
structure KeepsLayers (f f' : Flow) : Prop where
  label : f'.label = f.label
  inputs : f'.inputs = f.inputs
  layers : List.Forall₂ Layer.Keeps f.layers f'.layers

instance : IsPreorder Flow KeepsLayers where
  refl f := ⟨rfl, rfl, List.forall₂_refl f.layers⟩
  trans _ _ _ h h' := ⟨h'.label.trans h.label, h'.inputs.trans h.inputs,
    Traversal.forall₂_trans h.layers h'.layers⟩

theorem keepsLayers_of_layers_eq {f f' : Flow} (hlabel : f'.label = f.label)
    (hinputs : f'.inputs = f.inputs) (hlayers : f'.layers = f.layers) : KeepsLayers f f' := by
  refine ⟨hlabel, hinputs, ?_⟩
  rw [hlayers]
  exact List.forall₂_refl f.layers

/-- Every forward build on the tape keeps the parameters that still fit, also one that fails. -/
theorem keepsLayers_buildForward (f : Flow) (t : Tape) (raw : List Handle)
    (outputs : List (Option Handle)) (alignment : Nat) :
    KeepsLayers f ((buildForward raw outputs alignment).run (f, t)).state.1 := by
  rcases layers_of_buildForward f t raw outputs alignment with heq | ⟨start, u, stage, heq⟩
  · rw [heq]
    exact Std.Refl.refl f
  · rw [heq]
    exact ⟨rfl, rfl, keeps_appendLayers _ start f.layers u⟩

/-- A forward build on the tape that succeeds leaves each layer as its node does. -/
theorem yields_buildForward_refills {f f' : Flow} {raw : List Handle}
    {outputs : List (Option Handle)} {alignment : Nat} {output : Handle} {t t' : Tape}
    (hfits : f.Fits f.shapes)
    (h : (buildForward raw outputs alignment).Yields (f, t) output (f', t')) :
    RefilledAll f.shapes.layerInputs f.layers f'.layers ∧
      f' = { f with layers := f'.layers, state := f'.state } := by
  obtain ⟨start, u, nodes, v, stage, hlayers, heq⟩ := layers_of_yields_buildForward h
  refine ⟨refilledAll_of_yields_appendLayers hfits.length_layerInputs hlayers, ?_⟩
  rw [heq]

/-- The stores of a flow were used for the shapes that it has. -/
def Full (f : Flow) : Prop := ∃ layers, RefilledAll f.shapes.layerInputs layers f.layers

/-- A flow later on, with the same layers and shapes if its stores were used for these shapes. -/
def StaysFull (f f' : Flow) : Prop := f.Full → f'.layers = f.layers ∧ f'.shapes = f.shapes

theorem Full.congr {f f' : Flow} (h : f.Full)
    (hsame : f'.layers = f.layers ∧ f'.shapes = f.shapes) : f'.Full := by
  obtain ⟨layers, hrefilled⟩ := h
  exact ⟨layers, by rwa [hsame.1, hsame.2]⟩

instance : IsPreorder Flow StaysFull where
  refl _ _ := ⟨rfl, rfl⟩
  trans _ _ _ h h' hf := by
    have hfirst := h hf
    have hsecond := h' (hf.congr hfirst)
    exact ⟨hsecond.1.trans hfirst.1, hsecond.2.trans hfirst.2⟩

theorem staysFull_buildForward (f : Flow) (t : Tape) (raw : List Handle)
    (outputs : List (Option Handle)) (alignment : Nat) :
    StaysFull f ((buildForward raw outputs alignment).run (f, t)).state.1 := by
  rintro ⟨layers, hrefilled⟩
  rcases layers_of_buildForward f t raw outputs alignment with heq | ⟨start, u, stage, heq⟩
  · rw [heq]
    exact ⟨rfl, rfl⟩
  · rw [heq]
    exact ⟨run_appendLayers_of_suits hrefilled.suits start u, rfl⟩

theorem RefilledAll.bare {shapes : List Shape} {layers layers' : List Layer}
    (h : RefilledAll shapes layers layers') :
    layers'.map Layer.bare = layers.map Layer.bare := by
  induction h with
  | nil => rfl
  | cons hfirst hrest ih =>
    rw [List.map_cons, List.map_cons, ih]
    cases hfirst <;> rfl

end Flow

end LayerFlow
