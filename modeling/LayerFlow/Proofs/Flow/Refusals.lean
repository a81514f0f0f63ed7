/-
LayerFlow.Proofs.Flow.Refusals

Forward builds that fail.  The layers are built one after the other, and each hands its parameter
store to the backend before the next one is tried; so a build that is refused at one layer has
already used the stores of the layers before it, and nothing takes that back.  All else of the flow
is as it was.

Main statements: `buildForward_error_leaves`, what a forward build that fails leaves of a flow, and
`not_buildForward_error_discards`, parameters that are lost to one.
-/
import LayerFlow.Proofs.Flow.History
import LayerFlow.Proofs.Flow.Stores

namespace LayerFlow

open Op

/-! ## Stores in the hands of a backend -/

/-- A backend that is given no store leaves none. -/
def Backend.LeavesAbsence (β : Type) [Backend β] : Prop :=
  ∀ (kernel : Kernel) (padding : PaddingPolicy) (input : Handle) (b : β),
    ((Backend.appendForward kernel padding input).run (b, none)).state.2 = none

/-- What a backend leaves of the layers on their input shapes: of those whose node it grants, and
of those whose node it refuses. -/
structure Backend.Leaves (β : Type) [Backend β] (granted refused : Shape → Layer → Layer → Prop) :
    Prop where
  granted {shape : Shape} {input node : Handle} {l l' : Layer} {b b' : β}
    (h : (Layer.appendForward shape input).Yields (l, b) node (l', b')) : granted shape l l'
  refused {shape : Shape} {input : Handle} {l l' : Layer} {b b' : β} {e : Failure}
    (h : (Layer.appendForward shape input).Fails (l, b) e (l', b')) : refused shape l l'

namespace Layer

/-- Nothing of a layer is different but the store of a normalization with learned parameters. -/
inductive StoreOnly : Layer → Layer → Prop
  | same (l : Layer) : StoreOnly l l
  | learned {n : Normalization} (hkind : n.kind = .batch ∨ n.kind = .perInstance)
      (store : ParamStore) :
      StoreOnly (.normalization n) (.normalization { n with store := store })

/-- A layer of which the node was refused: its store was prepared for the input, if it came to
that. -/
def Prepared (input : Shape) (l l' : Layer) : Prop :=
  l' = l ∨ l' = l.withStore (l.prepareStore input)

theorem storeOnly_withStore {l : Layer} (input : Shape) {store : Option ParamStore}
    (h : l.prepareStore input = none → store = none) : l.StoreOnly (l.withStore store) := by
  rcases learned_or_other l with ⟨n, rfl, hkind⟩ | hother
  · cases store with
    | none =>
      rw [withStore_none]
      exact .same _
    | some store => exact .learned hkind store
  · rw [h (prepareStore_of_other hother input), withStore_none]
    exact .same l

theorem StoreOnly.eq {l l' : Layer} (h : l.StoreOnly l')
    (hother : ∀ n, l = .normalization n → n.kind ≠ .batch ∧ n.kind ≠ .perInstance) : l' = l := by
  cases h with
  | same => rfl
  | @learned n hkind store =>
    obtain ⟨hbatch, hinstance⟩ := hother n rfl
    exact (hkind.elim hbatch hinstance).elim

end Layer

section

variable {β : Type} [Backend β]

/-- Whatever a backend does to the stores that it is given, it does it to these stores only. -/
theorem Backend.LeavesAbsence.leaves (h : Backend.LeavesAbsence β) :
    Backend.Leaves β (fun _ => Layer.StoreOnly) (fun _ => Layer.StoreOnly) where
  granted {shape input node l l' b b'} hyields := by
    obtain ⟨kernel, store, -, hnode, rfl⟩ := Layer.granted_of_yields_appendForward hyields
    -- Without a store to hand out, the backend has none to give back.
    refine Layer.storeOnly_withStore shape fun hnone => ?_
    rw [hnone] at hnode
    have hstore := h kernel l.padding input b
    rwa [hnode.2] at hstore
  refused {shape input l l' b b' e} hfails := by
    rcases Layer.refused_of_fails_appendForward hfails with
      ⟨-, rfl, -⟩ | ⟨kernel, store, fault, -, -, hnode, rfl⟩
    · exact .same _
    refine Layer.storeOnly_withStore shape fun hnone => ?_
    rw [hnone] at hnode
    have hstore := h kernel l.padding input b
    rwa [hnode.2] at hstore

/-- Observation changes nothing of what a backend leaves. -/
theorem Backend.Leaves.observed {granted refused : Shape → Layer → Layer → Prop}
    (h : Backend.Leaves β granted refused) : Backend.Leaves (Observed β) granted refused where
  granted {shape input node l l' o o'} hyields := by
    obtain ⟨⟨l'', b'⟩, hinside, hsame, -⟩ :=
      (Layer.across_appendForward (Layer.alike_eq Observed.alike) shape input).yields
        (t := (l, o.inner)) ⟨rfl, rfl⟩ hyields
    cases hsame
    exact h.granted hinside
  refused {shape input l l' o o' e} hfails := by
    obtain ⟨⟨l'', b'⟩, hinside, hsame, -⟩ :=
      (Layer.across_appendForward (Layer.alike_eq Observed.alike) shape input).fails
        (t := (l, o.inner)) ⟨rfl, rfl⟩ hfails
    cases hsame
    exact h.refused hinside

end

/-- The tape uses the stores of the nodes that it grants, and no others. -/
theorem Tape.leaves : Backend.Leaves Tape Layer.Refilled Layer.Prepared where
  granted hyields := Layer.refilled_of_yields_appendForward hyields
  refused hfails := Layer.store_of_fails_appendForward hfails

theorem Tape.leavesAbsence : Backend.LeavesAbsence Tape := by
  intro kernel padding input t
  rcases yields_or_fails (appendForward kernel padding input) (t, none) with ⟨node, h⟩ | ⟨e, h⟩
  · exact store_of_yields_appendForward h
  · exact congrArg Prod.snd (careful_appendForward _ _ _ _ _ _ h)

/-! ## Requests that are refused -/

section

variable {β : Type} [Backend β]

theorem Observed.fails_appendForward {kernel : Kernel} {padding : PaddingPolicy} {input : Handle}
    {o o' : Observed β} {store store' : Option ParamStore} {fault : BackendFault}
    (h : (Backend.appendForward kernel padding input).Fails (o, store) fault (o', store')) :
    o'.calls = o.calls ++ [.refused] := by
  obtain ⟨hresult, hstate⟩ := h
  have hinside : ((Backend.appendForward kernel padding input).run (o.inner, store)).result =
      .error fault := hresult
  rw [← congrArg (fun s => s.1.calls) hstate]
  show o.calls ++ [callOf _ ((Backend.appendForward kernel padding input).run
    (o.inner, store)).result] = _
  rw [hinside]
  rfl

/-- The last requests of a build that fails at a layer: none if the layer has no kernel. -/
def Layer.LastCalls (l : Layer) (shape : Shape) (e : Failure) (calls : List Call) : Prop :=
  (l.kernel shape = .error e ∧ calls = []) ∨ ((∃ fault, e = .backend fault) ∧ calls = [.refused])

theorem Layer.lastCalls_of_fails_appendForward {shape : Shape} {input : Handle} {l l' : Layer}
    {o o' : Observed β} {e : Failure}
    (h : (appendForward shape input).Fails (l, o) e (l', o')) :
    ∃ calls, l.LastCalls shape e calls ∧ o'.calls = o.calls ++ calls := by
  rcases refused_of_fails_appendForward h with
    ⟨hkernel, -, rfl⟩ | ⟨kernel, store, fault, -, rfl, hnode, -⟩
  · exact ⟨[], .inl ⟨hkernel, rfl⟩, (List.append_nil _).symm⟩
  · exact ⟨[.refused], .inr ⟨⟨fault, rfl⟩, rfl⟩, Observed.fails_appendForward hnode⟩

end

namespace Flow

/-! ## Chains of layers that are stopped -/

section

variable {β : Type} [Backend β] {granted refused : Shape → Layer → Layer → Prop}

/-- Building layers that fails: some layers were built, the next one failed, and those behind it
were not reached. -/
theorem stopped_of_fails_appendLayers {shapes : List Shape} {layers layers' : List Layer}
    {start : Handle} {b b' : β} {e : Failure} (hlength : shapes.length = layers.length)
    (h : (appendLayers shapes start).Fails (layers, b) e (layers', b')) :
    ∃ frontShapes shape moreShapes front l rest nodes front' u l',
      shapes = frontShapes ++ shape :: moreShapes ∧ layers = front ++ l :: rest ∧
      layers' = front' ++ l' :: rest ∧ frontShapes.length = front.length ∧
      (appendLayers frontShapes start).Yields (front, b) nodes (front', u) ∧
      (Layer.appendForward shape (nodes.getLast?.getD start)).Fails (l, u) e (l', b') := by
  induction shapes generalizing layers layers' start b with
  | nil =>
    obtain rfl := List.eq_nil_of_length_eq_zero hlength.symm
    exact absurd h fails_pure.mp
  | cons shape shapes ih =>
    cases layers with
    | nil => cases hlength
    | cons l rest =>
      rcases fails_appendLayers_cons h with
        ⟨l', hfirst, rfl⟩ | ⟨node, l', u, rest', hfirst, hmore, rfl⟩
      · have hnone : (appendLayers [] start).Yields (([] : List Layer), b) [] ([], b) :=
          yields_pure.mpr ⟨rfl, rfl⟩
        exact ⟨[], shape, shapes, [], l, rest, [], [], b, l', rfl, rfl, rfl, rfl, hnone, hfirst⟩
      -- The first layer was built, so the failing one is among the others.
      · obtain ⟨frontShapes, shape', moreShapes, front, l₁, rest₁, nodes, front', v, l₁', rfl, rfl,
          rfl, hfront, hyields, hfails⟩ := ih (by simpa using hlength) hmore
        refine ⟨shape :: frontShapes, shape', moreShapes, l :: front, l₁, rest₁, node :: nodes,
          l' :: front', v, l₁', rfl, rfl, rfl, by simpa using hfront,
          yields_appendLayers_cons_of hfirst hyields, ?_⟩
        rwa [List.getLast?_cons, Option.getD_some]

/-- What the backend leaves of layers that were built. -/
theorem granted_of_yields_appendLayers (hleaves : Backend.Leaves β granted refused)
    {shapes : List Shape} {layers layers' : List Layer} {start : Handle} {nodes : List Handle}
    {b b' : β} (hlength : shapes.length = layers.length)
    (h : (appendLayers shapes start).Yields (layers, b) nodes (layers', b')) :
    List.Forall₂ (fun entry => granted entry.1 entry.2) (shapes.zip layers) layers' := by
  induction shapes generalizing layers layers' start nodes b with
  | nil =>
    obtain rfl := List.eq_nil_of_length_eq_zero hlength.symm
    obtain ⟨-, hstate⟩ := yields_pure.mp h
    cases hstate
    exact .nil
  | cons shape shapes ih =>
    cases layers with
    | nil => cases hlength
    | cons l rest =>
      obtain ⟨node, l', u, more, rest', hfirst, hmore, rfl, rfl⟩ := yields_appendLayers_cons h
      exact .cons (hleaves.granted hfirst) (ih (by simpa using hlength) hmore)

end

/-! ## Forward builds that fail -/

/-- What a forward build that fails leaves of a flow.  It has not come to the layers, and the flow
is as it was; or it has built the layers in front of one that failed, whose stores and the store of
that one are as the backend left them. -/
inductive Abandons (granted refused : Shape → Layer → Layer → Prop) (f : Flow) (alignment : Nat)
    (e : Failure) (calls : List Call) : Flow → Prop
  | before : Abandons granted refused f alignment e calls f
  | among {sources nodes : List Handle} {fusion : Option FusionNodes} {start : Handle}
      {front front' rest : List Layer} {l l' : Layer} {shape : Shape}
      {fusionCalls layerCalls lastCalls : List Call}
      (hlayers : f.layers = front ++ l :: rest)
      (hshape : f.shapes.layerInputs[front.length]? = some shape)
      (hfusion : FusionCalls f alignment sources fusion start fusionCalls)
      (hfront : ForwardCalls front (f.shapes.layerInputs.take front.length) start nodes layerCalls)
      (hlast : l.LastCalls shape e lastCalls)
      (hcalls : calls = fusionCalls ++ layerCalls ++ lastCalls)
      (hgranted : List.Forall₂ (fun entry => granted entry.1 entry.2)
        (f.shapes.layerInputs.zip front) front')
      (hrefused : refused shape l l') :
      Abandons granted refused f alignment e calls { f with layers := front' ++ l' :: rest }

theorem abandons_of_fails_buildForward {β : Type} [Backend β]
    {granted refused : Shape → Layer → Layer → Prop} (hleaves : Backend.Leaves β granted refused)
    {f f' : Flow} (hcoherent : f.Coherent) {b b' : β} {raw : List Handle}
    {outputs : List (Option Handle)} {alignment : Nat} {e : Failure}
    (h : (buildForward raw outputs alignment).Fails (f, b) e (f', b')) :
    f.Abandons granted refused alignment e
      ((Use.buildForward b raw outputs alignment).requests f) f' := by
  -- Under observation the build fails in the same way, and its requests tell where.
  obtain ⟨⟨_, o⟩, hobserved, rfl, -⟩ :=
    (related_buildForward Observed.alike raw outputs alignment).fails_left
      (s := (f, ⟨b, []⟩)) ⟨rfl, rfl⟩ h
  have hrequests : (Use.buildForward b raw outputs alignment).requests f = o.calls := by
    show ((buildForward raw outputs alignment).run (f, (⟨b, []⟩ : Observed β))).state.2.calls = _
    rw [hobserved.2]
  rw [hrequests]
  rcases layers_of_fails_buildForward hobserved with
    rfl | ⟨sources, fusion, start, o₁, layers', hcheck, hfusion, hlayers, hf'⟩
  · exact .before
  have hstate := (checkForward_eq_ok hcheck).1
  have hfits : f.Fits f.shapes := hcoherent.fits (by rw [hstate]; simp)
  obtain ⟨fusionCalls, hfusionCalls, hfirst⟩ := yields_appendFusion hfusion
  obtain ⟨frontShapes, shape, moreShapes, front, l, rest, nodes, front', u, l', hshapes, hsplit,
    rfl, hlength, hyields, hfails⟩ :=
    stopped_of_fails_appendLayers hfits.length_layerInputs hlayers
  obtain ⟨-, layerCalls, hlayerCalls, hsecond⟩ := yields_appendLayers hlength hyields
  obtain ⟨lastCalls, hlast, hthird⟩ := Layer.lastCalls_of_fails_appendForward hfails
  have hgranted := granted_of_yields_appendLayers hleaves.observed hlength hyields
  have hrefused := hleaves.observed.refused hfails
  -- The shapes of the layers that were built are the first ones.
  have htake : f.shapes.layerInputs.take front.length = frontShapes := by
    rw [hshapes, ← hlength, List.take_left]
  have hzip : f.shapes.layerInputs.zip front = frontShapes.zip front := by
    rw [hshapes, ← List.append_nil front, List.zip_append hlength, List.append_nil]
    simp
  have hfound : f.shapes.layerInputs[front.length]? = some shape := by
    rw [hshapes, ← hlength]
    simp
  rw [hf']
  refine .among hsplit hfound hfusionCalls (htake ▸ hlayerCalls) hlast ?_ (hzip ▸ hgranted)
    hrefused
  rw [hthird, hsecond, hfirst]
  rfl

theorem eq_of_storeOnly {shapes : List Shape} {layers layers' : List Layer}
    (hlength : layers.length ≤ shapes.length)
    (hother : ∀ n, .normalization n ∈ layers → n.kind ≠ .batch ∧ n.kind ≠ .perInstance)
    (h : List.Forall₂ (fun entry => Layer.StoreOnly entry.2) (shapes.zip layers) layers') :
    layers' = layers := by
  induction layers generalizing shapes layers' with
  | nil =>
    rw [List.zip_nil_right] at h
    cases h
    rfl
  | cons l rest ih =>
    cases shapes with
    | nil => simp at hlength
    | cons shape shapes =>
      cases h with
      | @cons _ l' _ rest' hfirst hrest =>
        have hl : l' = l := hfirst.eq fun n hn => hother n (hn ▸ List.mem_cons_self)
        have hothers : rest' = rest := by
          refine ih (by simpa using hlength) (fun n hn => ?_) hrest
          exact hother n (List.mem_cons_of_mem _ hn)
        rw [hl, hothers]

/-- Without learned parameters there is nothing that a build could change and then abandon. -/
theorem Abandons.eq_of_other {f f' : Flow} {alignment : Nat} {e : Failure} {calls : List Call}
    (h : f.Abandons (fun _ => Layer.StoreOnly) (fun _ => Layer.StoreOnly) alignment e calls f')
    (hother : ∀ n, .normalization n ∈ f.layers → n.kind ≠ .batch ∧ n.kind ≠ .perInstance) :
    f' = f := by
  cases h with
  | before => rfl
  | @among _ _ _ _ front front' rest l l' shape _ _ _ hlayers hshape _ _ _ _ hgranted hrefused =>
    rw [hlayers] at hother
    have hlength := (List.getElem?_eq_some_iff.mp hshape).1
    have hfront : front' = front :=
      eq_of_storeOnly hlength.le (fun n hn => hother n (List.mem_append_left _ hn)) hgranted
    have hl : l' = l := by
      refine hrefused.eq fun n hn => hother n ?_
      exact List.mem_append_right _ (hn ▸ List.mem_cons_self)
    rw [hfront, hl, ← hlayers]

/-- A build on the tape has nothing to change where the stores suit the shapes. -/
theorem eq_of_fails_buildForward_of_suits {f f' : Flow} {t t' : Tape} {raw : List Handle}
    {outputs : List (Option Handle)} {alignment : Nat} {e : Failure}
    (hsuits : List.Forall₂ Layer.Suits f.shapes.layerInputs f.layers)
    (h : (buildForward raw outputs alignment).Fails (f, t) e (f', t')) : f' = f := by
  rcases layers_of_fails_buildForward h with
    heq | ⟨_, _, start, u, layers', -, -, hlayers, heq⟩
  · exact heq
  · have hsame := run_appendLayers_of_suits hsuits start u
    rw [hlayers.2] at hsame
    rw [heq, show layers' = f.layers from hsame]

/-- A forward build that fails has changed nothing of the flow but the stores of the normalizations
with learned parameters that it came to: on the tape, the store of a layer whose node was granted
was used for the channels of its input, and that of the layer that failed was prepared for them.
Without such normalizations, or on the tape if their stores suit the shapes that were inferred, the
flow is as it was. -/
theorem buildForward_error_leaves {start : Flow} (h : start.Begins) (uses : List Use)
    (raw : List Handle) (outputs : List (Option Handle)) (alignment : Nat) (e : Failure) :
    (∀ {β : Type} [Backend β] (b : β), Backend.LeavesAbsence β →
      let f := start.after uses
      let out := (buildForward raw outputs alignment).run (f, b)
      out.result = .error e →
        f.Abandons (fun _ => Layer.StoreOnly) (fun _ => Layer.StoreOnly) alignment e
          ((Use.buildForward b raw outputs alignment).requests f) out.state.1 ∧
        ((∀ n, .normalization n ∈ f.layers → n.kind ≠ .batch ∧ n.kind ≠ .perInstance) →
          out.state.1 = f)) ∧
    ∀ t : Tape,
      let f := start.after uses
      let out := (buildForward raw outputs alignment).run (f, t)
      out.result = .error e →
        f.Abandons Layer.Refilled Layer.Prepared alignment e
          ((Use.buildForward t raw outputs alignment).requests f) out.state.1 ∧
        (List.Forall₂ Layer.Suits f.shapes.layerInputs f.layers → out.state.1 = f) := by
  have hcoherent : (start.after uses).Coherent := (h.reachable.after uses).coherent
  constructor
  · intro β _ b habsence f out herror
    have habandons := abandons_of_fails_buildForward habsence.leaves hcoherent
      (b := b) ⟨herror, rfl⟩
    exact ⟨habandons, habandons.eq_of_other⟩
  · intro t f out herror
    have hfails : (buildForward raw outputs alignment).Fails (f, t) e (out.state.1, out.state.2) :=
      ⟨herror, rfl⟩
    exact ⟨abandons_of_fails_buildForward Tape.leaves hcoherent hfails,
      fun hsuits => eq_of_fails_buildForward_of_suits hsuits hfails⟩

/-- A normalization and an activation. -/
def normed : Flow :=
  .fresh "norm" [.raw 0] [.normalization (.ofKind .batch), .neuron (.ofKind .relu)]

/-- Fills the buffer of scales of a layer that has one. -/
def rescale (value : Binary32) (l : Layer) : Layer :=
  l.withStore (l.store?.map fun store => store.fill "gamma" value)

/-- The scales in the store of the first layer. -/
def scales? (f : Flow) : Option (List Binary32) :=
  f.layers.head?.bind fun l => l.store?.bind fun store => store.buffer? "gamma"

/-- The flow is built for two channels, its scales become 1.5, and then its input has a third
channel. -/
def widenedUses : List Use :=
  [.infer fun _ => .ok ⟨4, 4, 2, 1⟩, .buildForward (⟨#[.readInput 0], none⟩ : Tape) [⟨0⟩] [] 4,
    .modifyLayer 0 (rescale ⟨0x3fc00000⟩), .infer fun _ => .ok ⟨4, 4, 3, 1⟩]

/-- A tape that refuses the activation. -/
def refusingTape : Tape := ⟨#[.readInput 0], some "ReLU"⟩

/-- The normalization was used for the third channel, which costs it its scales, although the
activation behind it is refused. -/
theorem buildForward_error_leaves_widened :
    ∃ e, ((buildForward [⟨0⟩] [] 4).run (normed.after widenedUses, refusingTape)).result =
        .error e ∧
      Abandons Layer.Refilled Layer.Prepared (normed.after widenedUses) 4 e
        ((Use.buildForward refusingTape [⟨0⟩] [] 4).requests (normed.after widenedUses))
        ((buildForward [⟨0⟩] [] 4).run (normed.after widenedUses, refusingTape)).state.1 ∧
      Abandons (fun _ => Layer.StoreOnly) (fun _ => Layer.StoreOnly) (normed.after widenedUses) 4 e
        ((Use.buildForward refusingTape [⟨0⟩] [] 4).requests (normed.after widenedUses))
        ((buildForward [⟨0⟩] [] 4).run (normed.after widenedUses, refusingTape)).state.1 := by
  have hbegins : Begins normed := .fresh _ _ _
  have herror : ((buildForward [⟨0⟩] [] 4).run
      (normed.after widenedUses, refusingTape)).result = .error (.backend (.rejected "ReLU")) := by
    decide +kernel
  obtain ⟨hany, htape⟩ := buildForward_error_leaves hbegins widenedUses [⟨0⟩] [] 4
    (.backend (.rejected "ReLU"))
  exact ⟨_, herror, (htape refusingTape herror).1,
    (hany refusingTape Tape.leavesAbsence herror).1⟩

/-- The build fails, and the flow is not as it was: the scales have become zeros. -/
theorem not_buildForward_error_discards :
    ((buildForward [⟨0⟩] [] 4).run (normed.after widenedUses, refusingTape)).result =
        .error (.backend (.rejected "ReLU")) ∧
      (normed.after widenedUses).scales? = some [⟨0x3fc00000⟩, ⟨0x3fc00000⟩] ∧
      ((buildForward [⟨0⟩] [] 4).run (normed.after widenedUses, refusingTape)).state.1.scales? =
        some [.zero, .zero, .zero] ∧
      ((buildForward [⟨0⟩] [] 4).run (normed.after widenedUses, refusingTape)).state.1 ≠
        normed.after widenedUses := by
  have hbefore : (normed.after widenedUses).scales? = some [⟨0x3fc00000⟩, ⟨0x3fc00000⟩] := by
    decide +kernel
  have hafter : ((buildForward [⟨0⟩] [] 4).run
      (normed.after widenedUses, refusingTape)).state.1.scales? =
        some [.zero, .zero, .zero] := by
    decide +kernel
  refine ⟨by decide +kernel, hbefore, hafter, fun heq => ?_⟩
  rw [heq, hbefore] at hafter
  cases hafter

end Flow

end LayerFlow
