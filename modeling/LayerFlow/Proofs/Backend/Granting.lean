/-
LayerFlow.Proofs.Backend.Granting

What the tape grants.  A tape that refuses no label grants a request as soon as the nodes that
the request names are there: inputs anywhere on the tape, and for a gradient the forward node of
the same label or the concatenation.  Nodes stay where they are, so whatever was there once is
there for every later request.

Main statements: `ends_appendForward` and its kin, one for each request.
-/
import LayerFlow.Backend.Tape
import LayerFlow.Proofs.Operation

namespace LayerFlow.Tape

open Op

variable {t t' t'' : Tape} {h : Handle} {instruction : Instruction}

/-! ## Tapes that go on -/

/-- Whether a node exists. -/
def Has (t : Tape) (h : Handle) : Prop := h.index < t.size

theorem has_of_node? (hnode : t.node? h = some instruction) : t.Has h :=
  (Array.getElem?_eq_some_iff.mp hnode).1

/-- A tape goes on from another one: it refuses the same labels and keeps the nodes. -/
structure GoesOn (t t' : Tape) : Prop where
  rejects : t'.rejects = t.rejects
  node? : ∀ {h : Handle} {instruction : Instruction}, t.node? h = some instruction →
    t'.node? h = some instruction

theorem GoesOn.refl (t : Tape) : t.GoesOn t := ⟨rfl, fun hnode => hnode⟩

theorem GoesOn.trans (h : t.GoesOn t') (h' : t'.GoesOn t'') : t.GoesOn t'' :=
  ⟨h'.rejects.trans h.rejects, fun hnode => h'.node? (h.node? hnode)⟩

theorem GoesOn.has (hgoes : t.GoesOn t') (hhas : t.Has h) : t'.Has h := by
  obtain ⟨instruction, hnode⟩ : ∃ instruction, t.node? h = some instruction :=
    ⟨t.nodes[h.index], Array.getElem?_eq_getElem hhas⟩
  exact has_of_node? (hgoes.node? hnode)

/-! ## Recording -/

section

variable {ε : Type} {E : ε → Prop}

theorem ends_push (instruction : Instruction) (t : Tape) :
    (push instruction : Op ε Tape Handle).Ends t
      (fun node t' => t.GoesOn t' ∧ t'.node? node = some instruction) E := by
  refine ends_of_yields ⟨rfl, rfl⟩ ⟨⟨rfl, fun {h _} hnode => ?_⟩, node?_push_self instruction t⟩
  rw [node?_push_of_lt instruction (has_of_node? hnode)]
  exact hnode

/-- Several nodes, one after the other. -/
theorem ends_pushes (instruction : Nat → Instruction) (indices : List Nat) (t : Tape) :
    (forEach (fun index => push (instruction index)) indices : Op ε Tape (List Handle)).Ends t
      (fun nodes t' => t.GoesOn t' ∧ nodes.length = indices.length ∧ ∀ node ∈ nodes, t'.Has node)
      E := by
  induction indices generalizing t with
  | nil => exact ends_pure ⟨.refl t, rfl, by simp⟩
  | cons index rest ih =>
    refine ends_bind (ends_push (instruction index) t) fun node u ⟨hfirst, hnode⟩ => ?_
    refine ends_bind (ih u) fun nodes v ⟨hmore, hlength, hnodes⟩ => ends_pure ?_
    refine ⟨hfirst.trans hmore, by rw [List.length_cons, hlength, List.length_cons], ?_⟩
    exact List.forall_mem_cons.mpr ⟨hmore.has (has_of_node? hnode), hnodes⟩

end

theorem yields_require (hhas : t.Has h) : (require h).Yields t () t := by
  unfold Yields Op.run require
  rw [if_pos (show h.index < t.size from hhas)]
  exact ⟨rfl, rfl⟩

theorem yields_requireAll {hs : List Handle} (hhas : ∀ h ∈ hs, t.Has h) :
    (requireAll hs).Yields t () t := by
  induction hs with
  | nil => exact yields_pure.mpr ⟨rfl, rfl⟩
  | cons h rest ih =>
    rw [List.forall_mem_cons] at hhas
    exact yields_bind.mpr ⟨(), t, yields_require hhas.1, ih hhas.2⟩

/-! ## Requests -/

variable {E : BackendFault → Prop}

/-- A kernel is appended whatever its label, and whatever becomes of the parameter store. -/
theorem ends_appendForward (kernel : Kernel) (padding : PaddingPolicy) {input : Handle}
    (store : Option ParamStore) (hopen : t.rejects = none) (hinput : t.Has input) :
    (Backend.appendForward kernel padding input :
      Op BackendFault (Tape × Option ParamStore) Handle).Ends (t, store)
      (fun node s => t.GoesOn s.1 ∧ s.1.node? node = some (.forward kernel padding input)) E := by
  have hrefuses : t.refuses kernel.label = false := by rw [refuses, hopen]
  refine Yields.ends_bind (yields_zoom.mpr ⟨t, yields_require hinput, rfl⟩) ?_
  refine ends_get_bind ?_
  simp only [hrefuses, Bool.false_eq_true, if_false]
  -- The store may be filled first; the node follows either way.
  have hpush : ∀ store' : Option ParamStore, (zoom Prod.fst (fun t s => (t, s.2))
      (push (.forward kernel padding input)) :
        Op BackendFault (Tape × Option ParamStore) Handle).Ends (t, store')
      (fun node s => t.GoesOn s.1 ∧ s.1.node? node = some (.forward kernel padding input)) E :=
    fun store' => ends_zoom (ends_push _ t)
  split
  · exact ((yields_set (a := ())).mpr rfl).ends_bind (hpush _)
  · exact hpush _

theorem ends_appendGradient {forward outputGradient source : Handle} {kernel recorded : Kernel}
    {padding : PaddingPolicy} (hforward : t.node? forward = some (.forward recorded padding source))
    (hlabel : recorded.label = kernel.label) (hgradient : t.Has outputGradient) :
    (Backend.appendGradient forward kernel outputGradient : Op BackendFault Tape Handle).Ends t
      (fun node t' => t.GoesOn t' ∧ t'.Has node) E := by
  refine (yields_require hgradient).ends_bind (ends_get_bind ?_)
  simp only [hforward, hlabel, if_true]
  exact (ends_push _ t).mono fun node t' ⟨hgoes, hnode⟩ => ⟨hgoes, has_of_node? hnode⟩

theorem ends_appendConcatenation {inputs : List Handle} (hne : inputs ≠ [])
    (hinputs : ∀ h ∈ inputs, t.Has h) :
    (Backend.appendConcatenation inputs : Op BackendFault Tape Handle).Ends t
      (fun node t' => t.GoesOn t' ∧ t'.node? node = some (.concat inputs)) E := by
  show (appendConcatenation inputs).Ends t _ E
  rw [appendConcatenation, if_neg (by simpa using hne)]
  exact (yields_requireAll hinputs).ends_bind (ends_push _ t)

/-- The gradient of a concatenation comes in as many parts as were concatenated. -/
theorem ends_appendConcatenationGradient {concatenation outputGradient : Handle}
    {sources : List Handle} (hconcat : t.node? concatenation = some (.concat sources))
    (hgradient : t.Has outputGradient) :
    (Backend.appendConcatenationGradient concatenation outputGradient :
      Op BackendFault Tape (List Handle)).Ends t (fun nodes t' =>
        t.GoesOn t' ∧ nodes.length = sources.length ∧ ∀ node ∈ nodes, t'.Has node) E := by
  refine (yields_require hgradient).ends_bind (ends_get_bind ?_)
  simp only [hconcat]
  have hpushes := ends_pushes (E := E)
    (fun index => .concatGradient concatenation index outputGradient)
    (List.range sources.length) t
  rwa [List.length_range] at hpushes

theorem ends_appendOutputGradient {output : Handle} (houtput : t.Has output) :
    (Backend.appendOutputGradient output : Op BackendFault Tape Handle).Ends t
      (fun node t' => t.GoesOn t' ∧ t'.Has node) E := by
  refine (yields_require houtput).ends_bind ?_
  exact (ends_push _ t).mono fun node t' ⟨hgoes, hnode⟩ => ⟨hgoes, has_of_node? hnode⟩

theorem ends_appendAccumulation {gradients : List Handle} (hne : gradients ≠ [])
    (hgradients : ∀ h ∈ gradients, t.Has h) :
    (Backend.appendAccumulation gradients : Op BackendFault Tape Handle).Ends t
      (fun node t' => t.GoesOn t' ∧ t'.Has node) E := by
  show (appendAccumulation gradients).Ends t _ E
  unfold appendAccumulation
  split
  · exact absurd rfl hne
  · next single =>
    have hsingle := hgradients single List.mem_cons_self
    exact (yields_require hsingle).ends_bind (ends_pure ⟨.refl t, hsingle⟩)
  · refine (yields_requireAll hgradients).ends_bind ?_
    exact (ends_push _ t).mono fun node t' ⟨hgoes, hnode⟩ => ⟨hgoes, has_of_node? hnode⟩

end LayerFlow.Tape
