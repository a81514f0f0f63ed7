/-
LayerFlow.Proofs.Operation

Ways to speak about the runs of an operation without looking into it: `Yields`, a run that
succeeds, with its answer and the state it leaves; `Fails`, a run that fails; `Ends`, a run that
succeeds unless it fails in one of the ways that are named; `Preserves`, a property of states that
every run keeps, also one that fails; `Related`, two operations on different states that answer
alike and keep their states related.  Each of them has one rule for each way to build an operation.

Main statements: the rules `yields_bind`, `fails_bind`, `ends_bind`, `preserves_bind`,
`related_bind` and their kin.
-/
import LayerFlow.Outcome

namespace LayerFlow.Op

variable {ε δ σ τ υ ω α β : Type}

/-! ## Runs that succeed -/

/-- Run from `s`, the operation answers `a` and leaves `t`. -/
def Yields (x : Op ε σ α) (s : σ) (a : α) (t : σ) : Prop :=
  (x.run s).result = .ok a ∧ (x.run s).state = t

theorem yields_of_result {x : Op ε σ α} {s : σ} {a : α} (h : (x.run s).result = .ok a) :
    x.Yields s a (x.run s).state := ⟨h, rfl⟩

/-- A run has one answer and leaves one state. -/
theorem Yields.unique {x : Op ε σ α} {s t t' : σ} {a a' : α} (h : x.Yields s a t)
    (h' : x.Yields s a' t') : a' = a ∧ t' = t := by
  obtain ⟨hresult, rfl⟩ := h
  obtain ⟨hresult', rfl⟩ := h'
  rw [hresult] at hresult'
  cases hresult'
  exact ⟨rfl, rfl⟩

@[simp] theorem yields_pure {s t : σ} {a b : α} :
    (pure a : Op ε σ α).Yields s b t ↔ b = a ∧ t = s := by
  simp [Yields, eq_comm]

theorem yields_bind {x : Op ε σ α} {f : α → Op ε σ β} {s t : σ} {b : β} :
    (x >>= f).Yields s b t ↔ ∃ a u, x.Yields s a u ∧ (f a).Yields u b t := by
  unfold Yields
  rw [run_bind]
  rcases hx : x.run s with ⟨result, u, log⟩
  cases result with
  | error e => simp
  | ok a =>
    constructor
    · intro h
      exact ⟨a, u, ⟨rfl, rfl⟩, h⟩
    · rintro ⟨_, _, ⟨⟨⟩, rfl⟩, h⟩
      exact h

/-- Once the first part succeeded, the run is that of the rest. -/
theorem Yields.run_bind {x : Op ε σ α} {s t : σ} {a : α} (h : x.Yields s a t) (f : α → Op ε σ β) :
    ((x >>= f).run s).result = ((f a).run t).result ∧
      ((x >>= f).run s).state = ((f a).run t).state := by
  obtain ⟨hresult, hstate⟩ := h
  rw [Op.run_bind]
  rcases hx : x.run s with ⟨result, u, log⟩
  rw [hx] at hresult hstate
  cases hresult
  cases hstate
  exact ⟨rfl, rfl⟩

@[simp] theorem yields_fail {s t : σ} {a : α} {e : ε} :
    (fail e : Op ε σ α).Yields s a t ↔ False := by
  simp [Yields]

@[simp] theorem yields_get {s t u : σ} : (get : Op ε σ σ).Yields s u t ↔ u = s ∧ t = s := by
  simp [Yields, eq_comm]

/-- A look at the state comes before whatever follows it, and changes nothing. -/
theorem yields_get_bind {f : σ → Op ε σ α} {s t : σ} {a : α} :
    (get >>= f).Yields s a t ↔ (f s).Yields s a t := by
  rw [yields_bind]
  constructor
  · rintro ⟨_, _, hget, h⟩
    obtain ⟨rfl, rfl⟩ := yields_get.mp hget
    exact h
  · exact fun h => ⟨s, s, yields_get.mpr ⟨rfl, rfl⟩, h⟩

@[simp] theorem yields_set {s t u : σ} {a : Unit} : (set u : Op ε σ Unit).Yields s a t ↔ t = u := by
  simp [Yields, eq_comm]

@[simp] theorem yields_modify {f : σ → σ} {s t : σ} {a : Unit} :
    (modify f : Op ε σ Unit).Yields s a t ↔ t = f s := by
  simp [Yields, eq_comm]

@[simp] theorem yields_note {lines : List LogLine} {s t : σ} {a : Unit} :
    (note lines : Op ε σ Unit).Yields s a t ↔ t = s := by
  simp [Yields, eq_comm]

@[simp] theorem yields_say {severity : Severity} {text : String} {s t : σ} {a : Unit} :
    (say severity text : Op ε σ Unit).Yields s a t ↔ t = s := by
  simp [Yields, eq_comm]

@[simp] theorem yields_ofExcept {x : Except ε α} {s t : σ} {a : α} :
    (ofExcept x : Op ε σ α).Yields s a t ↔ x = .ok a ∧ t = s := by
  simp [Yields, eq_comm]

@[simp] theorem yields_mapError {f : ε → δ} {x : Op ε σ α} {s t : σ} {a : α} :
    (mapError f x).Yields s a t ↔ x.Yields s a t := by
  unfold Yields
  rw [run_mapError]
  cases (x.run s).result with
  | error e => constructor <;> rintro ⟨⟨⟩, -⟩
  | ok b =>
    constructor
    · rintro ⟨⟨⟩, hstate⟩
      exact ⟨rfl, hstate⟩
    · rintro ⟨⟨⟩, hstate⟩
      exact ⟨rfl, hstate⟩

theorem yields_zoom {part : σ → τ} {putBack : τ → σ → σ} {x : Op ε τ α} {s t : σ} {a : α} :
    (zoom part putBack x).Yields s a t ↔ ∃ u, x.Yields (part s) a u ∧ t = putBack u s := by
  constructor
  · rintro ⟨hresult, rfl⟩
    exact ⟨_, ⟨hresult, rfl⟩, rfl⟩
  · rintro ⟨u, ⟨hresult, rfl⟩, rfl⟩
    exact ⟨hresult, rfl⟩

@[simp] theorem yields_forEach_nil {f : α → Op ε σ β} {s t : σ} {bs : List β} :
    (forEach f []).Yields s bs t ↔ bs = [] ∧ t = s := by
  rw [forEach, yields_pure]

theorem yields_forEach_cons {f : α → Op ε σ β} {a : α} {rest : List α} {s t : σ} {bs : List β} :
    (forEach f (a :: rest)).Yields s bs t ↔
      ∃ b u more, (f a).Yields s b u ∧ (forEach f rest).Yields u more t ∧ bs = b :: more := by
  simp only [forEach, yields_bind, yields_pure]
  constructor
  · rintro ⟨b, u, hb, more, v, hmore, rfl, rfl⟩
    exact ⟨b, u, more, hb, hmore, rfl⟩
  · rintro ⟨b, u, more, hb, hmore, rfl⟩
    exact ⟨b, u, hb, more, t, hmore, rfl, rfl⟩

/-! ## Runs that fail -/

/-- Run from `s`, the operation fails with `e` and leaves `t`. -/
def Fails (x : Op ε σ α) (s : σ) (e : ε) (t : σ) : Prop :=
  (x.run s).result = .error e ∧ (x.run s).state = t

theorem Yields.not_fails {x : Op ε σ α} {s t t' : σ} {a : α} {e : ε} (h : x.Yields s a t) :
    ¬ x.Fails s e t' := by
  intro hfails
  rw [Fails, h.1] at hfails
  cases hfails.1

/-- Every run succeeds or fails. -/
theorem yields_or_fails (x : Op ε σ α) (s : σ) :
    (∃ a, x.Yields s a (x.run s).state) ∨ ∃ e, x.Fails s e (x.run s).state := by
  cases h : (x.run s).result with
  | ok a => exact .inl ⟨a, h, rfl⟩
  | error e => exact .inr ⟨e, h, rfl⟩

@[simp] theorem fails_pure {s t : σ} {a : α} {e : ε} :
    (pure a : Op ε σ α).Fails s e t ↔ False := by
  simp [Fails]

theorem fails_bind {x : Op ε σ α} {f : α → Op ε σ β} {s t : σ} {e : ε} :
    (x >>= f).Fails s e t ↔
      x.Fails s e t ∨ ∃ a u, x.Yields s a u ∧ (f a).Fails u e t := by
  unfold Fails Yields
  rw [run_bind]
  rcases hx : x.run s with ⟨result, u, log⟩
  cases result with
  | error e' => simp
  | ok a =>
    constructor
    · intro h
      exact .inr ⟨a, u, ⟨rfl, rfl⟩, h⟩
    · rintro (⟨⟨⟩, -⟩ | ⟨_, _, ⟨⟨⟩, rfl⟩, h⟩)
      exact h

@[simp] theorem fails_fail {s t : σ} {e e' : ε} :
    (fail e : Op ε σ α).Fails s e' t ↔ e' = e ∧ t = s := by
  simp [Fails, eq_comm]

@[simp] theorem fails_get {s t : σ} {e : ε} : (get : Op ε σ σ).Fails s e t ↔ False := by
  simp [Fails]

theorem fails_get_bind {f : σ → Op ε σ α} {s t : σ} {e : ε} :
    (get >>= f).Fails s e t ↔ (f s).Fails s e t := by
  rw [fails_bind]
  constructor
  · rintro (hget | ⟨_, _, hget, h⟩)
    · exact absurd hget fails_get.mp
    · obtain ⟨rfl, rfl⟩ := yields_get.mp hget
      exact h
  · exact fun h => .inr ⟨s, s, yields_get.mpr ⟨rfl, rfl⟩, h⟩

@[simp] theorem fails_set {s t u : σ} {e : ε} : (set u : Op ε σ Unit).Fails s e t ↔ False := by
  simp [Fails]

@[simp] theorem fails_modify {f : σ → σ} {s t : σ} {e : ε} :
    (modify f : Op ε σ Unit).Fails s e t ↔ False := by
  simp [Fails]

@[simp] theorem fails_note {lines : List LogLine} {s t : σ} {e : ε} :
    (note lines : Op ε σ Unit).Fails s e t ↔ False := by
  simp [Fails]

@[simp] theorem fails_say {severity : Severity} {text : String} {s t : σ} {e : ε} :
    (say severity text : Op ε σ Unit).Fails s e t ↔ False := by
  simp [Fails]

@[simp] theorem fails_ofExcept {x : Except ε α} {s t : σ} {e : ε} :
    (ofExcept x : Op ε σ α).Fails s e t ↔ x = .error e ∧ t = s := by
  simp [Fails, eq_comm]

theorem fails_mapError {f : ε → δ} {x : Op ε σ α} {s t : σ} {d : δ} :
    (mapError f x).Fails s d t ↔ ∃ e, x.Fails s e t ∧ d = f e := by
  unfold Fails
  rw [run_mapError]
  cases hx : (x.run s).result with
  | error e =>
    constructor
    · rintro ⟨⟨⟩, rfl⟩
      exact ⟨e, ⟨rfl, rfl⟩, rfl⟩
    · rintro ⟨_, ⟨⟨⟩, rfl⟩, rfl⟩
      exact ⟨rfl, rfl⟩
  | ok a =>
    constructor
    · rintro ⟨⟨⟩, -⟩
    · rintro ⟨_, ⟨⟨⟩, -⟩, -⟩

theorem fails_zoom {part : σ → τ} {putBack : τ → σ → σ} {x : Op ε τ α} {s t : σ} {e : ε} :
    (zoom part putBack x).Fails s e t ↔ ∃ u, x.Fails (part s) e u ∧ t = putBack u s := by
  constructor
  · rintro ⟨hresult, rfl⟩
    exact ⟨_, ⟨hresult, rfl⟩, rfl⟩
  · rintro ⟨u, ⟨hresult, rfl⟩, rfl⟩
    exact ⟨hresult, rfl⟩

/-- An operation whose answer is dropped succeeds as it does with its answer. -/
theorem yields_of_discard {x : Op ε σ α} {s t : σ} {u : Unit}
    (h : (x >>= fun _ => pure ()).Yields s u t) : ∃ a, x.Yields s a t := by
  obtain ⟨a, _, hx, hpure⟩ := yields_bind.mp h
  obtain ⟨-, rfl⟩ := yields_pure.mp hpure
  exact ⟨a, hx⟩

theorem fails_of_discard {x : Op ε σ α} {s t : σ} {e : ε}
    (h : (x >>= fun _ => pure ()).Fails s e t) : x.Fails s e t := by
  rcases fails_bind.mp h with hx | ⟨_, _, -, hpure⟩
  · exact hx
  · exact absurd hpure fails_pure.mp

/-! ## Runs that succeed unless told otherwise -/

/-- Run from `s`, the operation succeeds, with an answer and a state of which `Q` holds; or it
fails, with a failure of which `E` holds. -/
def Ends (x : Op ε σ α) (s : σ) (Q : α → σ → Prop) (E : ε → Prop) : Prop :=
  (∃ a t, x.Yields s a t ∧ Q a t) ∨ ∃ e t, x.Fails s e t ∧ E e

section

variable {Q : α → σ → Prop} {E : ε → Prop}

theorem ends_of_yields {x : Op ε σ α} {s t : σ} {a : α} (h : x.Yields s a t) (hQ : Q a t) :
    x.Ends s Q E := .inl ⟨a, t, h, hQ⟩

theorem ends_of_fails {x : Op ε σ α} {s t : σ} {e : ε} (h : x.Fails s e t) (hE : E e) :
    x.Ends s Q E := .inr ⟨e, t, h, hE⟩

theorem ends_congr {x y : Op ε σ α} {s : σ} (h : x.run s = y.run s) :
    x.Ends s Q E ↔ y.Ends s Q E := by
  simp only [Ends, Yields, Fails, h]

/-- What is known of every run that succeeds adds to what is told of the answer. -/
theorem Ends.imp {x : Op ε σ α} {s : σ} {R : α → σ → Prop} (h : x.Ends s R E)
    (himp : ∀ a t, x.Yields s a t → R a t → Q a t) : x.Ends s Q E := by
  rcases h with ⟨a, t, hx, hR⟩ | hfails
  · exact .inl ⟨a, t, hx, himp a t hx hR⟩
  · exact .inr hfails

theorem Ends.mono {x : Op ε σ α} {s : σ} {R : α → σ → Prop} (h : x.Ends s R E)
    (hmono : ∀ a t, R a t → Q a t) : x.Ends s Q E :=
  h.imp fun a t _ => hmono a t

/-- Where no failure is allowed, the operation succeeds. -/
theorem Ends.exists_yields {x : Op ε σ α} {s : σ} (h : x.Ends s Q fun _ => False) :
    ∃ a t, x.Yields s a t ∧ Q a t := by
  rcases h with hyields | ⟨_, _, -, hfalse⟩
  · exact hyields
  · exact hfalse.elim

theorem ends_pure {s : σ} {a : α} (h : Q a s) : (pure a : Op ε σ α).Ends s Q E :=
  ends_of_yields (yields_pure.mpr ⟨rfl, rfl⟩) h

theorem ends_bind {x : Op ε σ β} {f : β → Op ε σ α} {s : σ} {R : β → σ → Prop}
    (hx : x.Ends s R E) (hf : ∀ b t, R b t → (f b).Ends t Q E) : (x >>= f).Ends s Q E := by
  rcases hx with ⟨b, t, hx, hR⟩ | ⟨e, t, hfails, hE⟩
  · rcases hf b t hR with ⟨a, u, hrest, hQ⟩ | ⟨e, u, hfails, hE⟩
    · exact ends_of_yields (yields_bind.mpr ⟨b, t, hx, hrest⟩) hQ
    · exact ends_of_fails (fails_bind.mpr (.inr ⟨b, t, hx, hfails⟩)) hE
  · exact ends_of_fails (fails_bind.mpr (.inl hfails)) hE

/-- A first part that is known to succeed leaves the rest. -/
theorem Yields.ends_bind {x : Op ε σ β} {f : β → Op ε σ α} {s t : σ} {b : β}
    (hx : x.Yields s b t) (hf : (f b).Ends t Q E) : (x >>= f).Ends s Q E := by
  refine Op.ends_bind (R := fun c u => c = b ∧ u = t) (ends_of_yields hx ⟨rfl, rfl⟩) ?_
  rintro _ _ ⟨rfl, rfl⟩
  exact hf

theorem ends_get_bind {f : σ → Op ε σ α} {s : σ} (h : (f s).Ends s Q E) :
    (get >>= f).Ends s Q E :=
  (yields_get.mpr ⟨rfl, rfl⟩).ends_bind h

theorem ends_mapError {f : ε → δ} {x : Op ε σ α} {s : σ} {E : δ → Prop}
    (h : x.Ends s Q fun e => E (f e)) : (mapError f x).Ends s Q E := by
  rcases h with ⟨a, t, hx, hQ⟩ | ⟨e, t, hfails, hE⟩
  · exact ends_of_yields (yields_mapError.mpr hx) hQ
  · exact ends_of_fails (fails_mapError.mpr ⟨e, hfails, rfl⟩) hE

theorem ends_zoom {part : σ → τ} {putBack : τ → σ → σ} {x : Op ε τ α} {s : σ}
    (h : x.Ends (part s) (fun a u => Q a (putBack u s)) E) : (zoom part putBack x).Ends s Q E := by
  rcases h with ⟨a, u, hx, hQ⟩ | ⟨e, u, hfails, hE⟩
  · exact ends_of_yields (yields_zoom.mpr ⟨u, hx, rfl⟩) hQ
  · exact ends_of_fails (fails_zoom.mpr ⟨u, hfails, rfl⟩) hE

end

/-! ## Properties that every run keeps -/

/-- Every run that starts in a state with the property leaves one with the property, whether it
succeeds or fails. -/
def Preserves (P : σ → Prop) (x : Op ε σ α) : Prop := ∀ s, P s → P (x.run s).state

variable {P : σ → Prop}

theorem preserves_pure (a : α) : Preserves P (pure a : Op ε σ α) := fun _ h => h

/-- What the first part leaves is kept by the rest. -/
theorem run_bind_of_preserves {x : Op ε σ α} {f : α → Op ε σ β} {s : σ} (hx : P (x.run s).state)
    (hf : ∀ a, Preserves P (f a)) : P ((x >>= f).run s).state := by
  rw [run_bind]
  rcases hr : x.run s with ⟨result, t, log⟩
  rw [hr] at hx
  cases result with
  | error e => exact hx
  | ok a => exact hf a t hx

theorem preserves_bind {x : Op ε σ α} {f : α → Op ε σ β} (hx : Preserves P x)
    (hf : ∀ a, Preserves P (f a)) : Preserves P (x >>= f) :=
  fun s hs => run_bind_of_preserves (hx s hs) hf

/-- What follows a look at the state may rely on what was seen. -/
theorem preserves_get_bind {f : σ → Op ε σ α} (h : ∀ s, P s → P ((f s).run s).state) :
    Preserves P (get >>= f) := fun s hs => h s hs

theorem preserves_fail (e : ε) : Preserves P (fail e : Op ε σ α) := fun _ h => h

theorem preserves_set {t : σ} (h : P t) : Preserves P (set t : Op ε σ Unit) := fun _ _ => h

theorem preserves_modify {f : σ → σ} (h : ∀ s, P s → P (f s)) :
    Preserves P (modify f : Op ε σ Unit) := h

theorem preserves_note (lines : List LogLine) : Preserves P (note lines : Op ε σ Unit) :=
  fun _ h => h

theorem preserves_say (severity : Severity) (text : String) :
    Preserves P (say severity text : Op ε σ Unit) := fun _ h => h

theorem preserves_ofExcept (x : Except ε α) : Preserves P (ofExcept x : Op ε σ α) :=
  fun _ h => h

/-- What follows a computation may rely on what it answered. -/
theorem preserves_ofExcept_bind {x : Except ε α} {f : α → Op ε σ β}
    (h : ∀ a, x = .ok a → Preserves P (f a)) : Preserves P (ofExcept x >>= f) := by
  intro s hs
  rw [run_bind, run_ofExcept]
  cases x with
  | error e => exact hs
  | ok a => exact h a rfl s hs

theorem preserves_mapError {f : ε → δ} {x : Op ε σ α} (h : Preserves P x) :
    Preserves P (mapError f x) := h

/-! ## Operations on related states -/

/-- Run on related states, both operations answer alike and leave related states. -/
def Related (R : σ → τ → Prop) (x : Op ε σ α) (y : Op ε τ α) : Prop :=
  ∀ s t, R s t → (x.run s).result = (y.run t).result ∧ R (x.run s).state (y.run t).state

variable {R : σ → τ → Prop}

theorem Related.yields {x : Op ε σ α} {y : Op ε τ α} (h : Related R x y) {s s' : σ} {t : τ}
    {a : α} (hst : R s t) (hx : x.Yields s a s') : ∃ t', y.Yields t a t' ∧ R s' t' := by
  obtain ⟨hresult, hstate⟩ := h s t hst
  rw [hx.1] at hresult
  rw [hx.2] at hstate
  exact ⟨_, ⟨hresult.symm, rfl⟩, hstate⟩

/-- The other way round: a success on the right side is one on the left side. -/
theorem Related.yields_left {x : Op ε σ α} {y : Op ε τ α} (h : Related R x y) {s : σ} {t t' : τ}
    {a : α} (hst : R s t) (hy : y.Yields t a t') : ∃ s', x.Yields s a s' ∧ R s' t' := by
  obtain ⟨hresult, hstate⟩ := h s t hst
  rw [hy.1] at hresult
  rw [hy.2] at hstate
  exact ⟨_, ⟨hresult, rfl⟩, hstate⟩

theorem Related.fails {x : Op ε σ α} {y : Op ε τ α} (h : Related R x y) {s s' : σ} {t : τ}
    {e : ε} (hst : R s t) (hx : x.Fails s e s') : ∃ t', y.Fails t e t' ∧ R s' t' := by
  obtain ⟨hresult, hstate⟩ := h s t hst
  rw [hx.1] at hresult
  rw [hx.2] at hstate
  exact ⟨_, ⟨hresult.symm, rfl⟩, hstate⟩

theorem Related.fails_left {x : Op ε σ α} {y : Op ε τ α} (h : Related R x y) {s : σ} {t t' : τ}
    {e : ε} (hst : R s t) (hy : y.Fails t e t') : ∃ s', x.Fails s e s' ∧ R s' t' := by
  obtain ⟨hresult, hstate⟩ := h s t hst
  rw [hy.1] at hresult
  rw [hy.2] at hstate
  exact ⟨_, ⟨hresult, rfl⟩, hstate⟩

theorem related_refl (x : Op ε σ α) : Related Eq x x := by
  rintro s _ rfl
  exact ⟨rfl, rfl⟩

theorem related_pure (a : α) : Related R (pure a : Op ε σ α) (pure a) := fun _ _ h => ⟨rfl, h⟩

theorem related_bind {x : Op ε σ α} {y : Op ε τ α} {f : α → Op ε σ β} {g : α → Op ε τ β}
    (hx : Related R x y) (hf : ∀ a, Related R (f a) (g a)) : Related R (x >>= f) (y >>= g) := by
  intro s t hst
  obtain ⟨hresult, hstate⟩ := hx s t hst
  rw [run_bind, run_bind]
  rcases hr : x.run s with ⟨result, u, log⟩
  rcases hq : y.run t with ⟨result', v, log'⟩
  rw [hr, hq] at hresult hstate
  -- Both sides had the same result, so both stop or both go on.
  cases hresult
  cases result with
  | error e => exact ⟨rfl, hstate⟩
  | ok a => exact hf a u v hstate

/-- What follows a look at the states may rely on their being related. -/
theorem related_get_bind {f : σ → Op ε σ α} {g : τ → Op ε τ α}
    (h : ∀ s t, R s t →
      ((f s).run s).result = ((g t).run t).result ∧ R ((f s).run s).state ((g t).run t).state) :
    Related R (get >>= f) (get >>= g) := fun s t hst => h s t hst

theorem related_fail (e : ε) : Related R (fail e : Op ε σ α) (fail e) := fun _ _ h => ⟨rfl, h⟩

theorem related_set {s : σ} {t : τ} (h : R s t) :
    Related R (set s : Op ε σ Unit) (set t) := fun _ _ _ => ⟨rfl, h⟩

theorem related_modify {f : σ → σ} {g : τ → τ} (h : ∀ s t, R s t → R (f s) (g t)) :
    Related R (modify f : Op ε σ Unit) (modify g) := fun s t hst => ⟨rfl, h s t hst⟩

/-- What is logged on either side does not matter. -/
theorem related_note (lines lines' : List LogLine) :
    Related R (note lines : Op ε σ Unit) (note lines') := fun _ _ h => ⟨rfl, h⟩

theorem related_say (severity severity' : Severity) (text text' : String) :
    Related R (say severity text : Op ε σ Unit) (say severity' text') := fun _ _ h => ⟨rfl, h⟩

theorem related_ofExcept (x : Except ε α) :
    Related R (ofExcept x : Op ε σ α) (ofExcept x) := fun _ _ h => ⟨rfl, h⟩

/-- What follows two computations that both fail, or have answers that fit each other. -/
theorem related_ofExcept_bind {α' : Type} {Q : α → α' → Prop} {x : Except ε α} {y : Except ε α'}
    {f : α → Op ε σ β} {g : α' → Op ε τ β}
    (hxy : (∃ a b, x = .ok a ∧ y = .ok b ∧ Q a b) ∨ ∃ e, x = .error e ∧ y = .error e)
    (hf : ∀ a b, Q a b → Related R (f a) (g b)) :
    Related R (ofExcept x >>= f) (ofExcept y >>= g) := by
  rcases hxy with ⟨a, b, rfl, rfl, hab⟩ | ⟨e, rfl, rfl⟩
  · exact hf a b hab
  · exact fun _ _ h => ⟨rfl, h⟩

theorem related_mapError {f : ε → δ} {x : Op ε σ α} {y : Op ε τ α} (h : Related R x y) :
    Related R (mapError f x) (mapError f y) := by
  intro s t hst
  obtain ⟨hresult, hstate⟩ := h s t hst
  exact ⟨congrArg (Except.mapError f) hresult, hstate⟩

theorem related_zoom {part : σ → υ} {putBack : υ → σ → σ} {part' : τ → ω}
    {putBack' : ω → τ → τ} {Q : υ → ω → Prop} {x : Op ε υ α} {y : Op ε ω α}
    (hx : Related Q x y) (hpart : ∀ s t, R s t → Q (part s) (part' t))
    (hback : ∀ u v s t, Q u v → R s t → R (putBack u s) (putBack' v t)) :
    Related R (zoom part putBack x) (zoom part' putBack' y) := by
  intro s t hst
  obtain ⟨hresult, hstate⟩ := hx _ _ (hpart s t hst)
  exact ⟨hresult, hback _ _ s t hstate hst⟩

theorem related_forEach {f : α → Op ε σ β} {g : α → Op ε τ β} (h : ∀ a, Related R (f a) (g a))
    (as : List α) : Related R (forEach f as) (forEach g as) := by
  induction as with
  | nil => exact related_pure []
  | cons a as ih =>
    exact related_bind (h a) fun b => related_bind ih fun bs => related_pure (b :: bs)

end LayerFlow.Op
