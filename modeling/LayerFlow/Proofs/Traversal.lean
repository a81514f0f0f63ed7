/-
LayerFlow.Proofs.Traversal

Computations that may fail, one after the other and along a list.

Main statements: `bind_eq_ok_iff`, two steps succeed if both do, and `mapM_eq_ok_iff`, a
traversal succeeds with the answers of its elements.
-/
import Mathlib.Data.List.Forall2

namespace LayerFlow.Traversal

variable {ε α β : Type}

theorem bind_eq_ok_iff {x : Except ε α} {f : α → Except ε β} {b : β} :
    (x >>= f) = .ok b ↔ ∃ a, x = .ok a ∧ f a = .ok b := by
  cases x with
  | error e => simp [bind, Except.bind]
  | ok a => simp [bind, Except.bind]

/-- Two steps fail as the first of them that fails. -/
theorem bind_eq_error_iff {x : Except ε α} {f : α → Except ε β} {e : ε} :
    (x >>= f) = .error e ↔ x = .error e ∨ ∃ a, x = .ok a ∧ f a = .error e := by
  cases x with
  | error e' => simp [bind, Except.bind]
  | ok a => simp [bind, Except.bind]

theorem pure_eq_ok_iff {a b : α} : (pure a : Except ε α) = .ok b ↔ b = a := by
  simp [pure, Except.pure, eq_comm]

/-- What a failure is called does not matter to what succeeds. -/
theorem mapError_eq_ok_iff {δ : Type} {rename : ε → δ} {x : Except ε α} {a : α} :
    x.mapError rename = .ok a ↔ x = .ok a := by
  cases x with
  | error e => constructor <;> rintro ⟨⟩
  | ok b =>
    constructor
    · rintro ⟨⟩
      rfl
    · rintro ⟨⟩
      rfl

/-- A traversal succeeds exactly with the list of what the elements answer. -/
theorem mapM_eq_ok_iff {f : α → Except ε β} {xs : List α} {ys : List β} :
    xs.mapM f = .ok ys ↔ List.Forall₂ (fun x y => f x = .ok y) xs ys := by
  induction xs generalizing ys with
  | nil => simp [pure, Except.pure, eq_comm]
  | cons x xs ih =>
    rw [List.mapM_cons, List.forall₂_cons_left_iff, bind_eq_ok_iff]
    constructor
    · rintro ⟨y, hx, h⟩
      obtain ⟨rest, hrest, hys⟩ := bind_eq_ok_iff.mp h
      exact ⟨y, rest, hx, ih.mp hrest, pure_eq_ok_iff.mp hys⟩
    · rintro ⟨y, rest, hx, hrest, rfl⟩
      exact ⟨y, hx, bind_eq_ok_iff.mpr ⟨rest, ih.mpr hrest, rfl⟩⟩

/-- Two traversals of one list answer with lists that go together if they do so at every
element. -/
theorem forall₂_of_mapM {γ : Type} {f : α → Except ε β} {g : α → Except ε γ} {R : β → γ → Prop}
    {xs : List α} {ys : List β} {zs : List γ} (hf : xs.mapM f = .ok ys) (hg : xs.mapM g = .ok zs)
    (hR : ∀ x ∈ xs, ∀ y z, f x = .ok y → g x = .ok z → R y z) : List.Forall₂ R ys zs := by
  have hall := mapM_eq_ok_iff.mp hg
  replace hf := mapM_eq_ok_iff.mp hf
  clear hg
  induction hall generalizing ys with
  | nil =>
    cases hf
    exact .nil
  | cons hfirst hrest ih =>
    obtain ⟨y, rest, hy, hmore, rfl⟩ := List.forall₂_cons_left_iff.mp hf
    rw [List.forall_mem_cons] at hR
    exact .cons (hR.1 y _ hy hfirst) (ih hR.2 hmore)

/-- Lists that go together element by element go together with whatever the second one does. -/
theorem forall₂_trans {R : α → α → Prop} [IsTrans α R] {xs ys zs : List α}
    (h : List.Forall₂ R xs ys) (h' : List.Forall₂ R ys zs) : List.Forall₂ R xs zs := by
  induction h generalizing zs with
  | nil => exact h'
  | cons hfirst hrest ih =>
    cases h' with
    | cons hfirst' hrest' => exact .cons (IsTrans.trans _ _ _ hfirst hfirst') (ih hrest')

/-- Traversals of lists that go together element by element have the same answers if elements that
go together have. -/
theorem mapM_of_forall₂ {γ : Type} {S : α → γ → Prop} {f : α → Except ε β} {g : γ → Except ε β}
    {xs : List α} {zs : List γ} (hxz : List.Forall₂ S xs zs)
    (hS : ∀ x z, S x z → ∀ y, f x = .ok y → g z = .ok y) {ys : List β} (h : xs.mapM f = .ok ys) :
    zs.mapM g = .ok ys := by
  rw [mapM_eq_ok_iff] at h ⊢
  induction hxz generalizing ys with
  | nil =>
    cases h
    exact .nil
  | cons hfirst hrest ih =>
    obtain ⟨y, more, hy, hmore, rfl⟩ := List.forall₂_cons_left_iff.mp h
    exact .cons (hS _ _ hfirst y hy) (ih hmore)

/-- A traversal whose elements can only answer with the value of a function answers with the image
of the list. -/
theorem eq_map_of_mapM {f : α → Except ε β} {g : α → β} {xs : List α} {ys : List β}
    (h : xs.mapM f = .ok ys) (hf : ∀ x y, f x = .ok y → y = g x) : ys = xs.map g := by
  have hall := (mapM_eq_ok_iff.mp h).imp hf
  rw [← List.forall₂_eq_eq_eq, List.forall₂_map_right_iff]
  exact hall.flip

theorem mapM_eq_ok_map {f : α → Except ε β} {g : α → β} {xs : List α}
    (h : ∀ x ∈ xs, f x = .ok (g x)) : xs.mapM f = .ok (xs.map g) := by
  rw [mapM_eq_ok_iff, List.forall₂_map_right_iff, List.forall₂_same]
  exact h

/-- Which error a traversal fails with does not matter to whether it succeeds. -/
theorem toOption_mapM {f : α → Except ε β} {g : α → Option β}
    (h : ∀ x, (f x).toOption = g x) (xs : List α) : (xs.mapM f).toOption = xs.mapM g := by
  induction xs with
  | nil => rfl
  | cons x xs ih =>
    rw [List.mapM_cons, List.mapM_cons, ← h, ← ih]
    cases f x with
    | error e => rfl
    | ok y => cases xs.mapM f <;> rfl

theorem length_of_mapM_eq_ok {f : α → Except ε β} {xs : List α} {ys : List β}
    (h : xs.mapM f = .ok ys) : ys.length = xs.length :=
  (mapM_eq_ok_iff.mp h).length_eq.symm

theorem exists_getElem?_of_forall₂ {R : α → β → Prop} {xs : List α} {ys : List β}
    (h : List.Forall₂ R xs ys) {i : Nat} {x : α} (hx : xs[i]? = some x) :
    ∃ y, ys[i]? = some y ∧ R x y := by
  induction h generalizing i with
  | nil => simp at hx
  | @cons first answer xs ys hfirst hrest ih =>
    cases i with
    | zero =>
      rw [List.getElem?_cons_zero, Option.some.injEq] at hx
      exact ⟨answer, rfl, hx ▸ hfirst⟩
    | succ i => exact ih hx

/-- A traversal succeeds only if every element answers. -/
theorem exists_mem_of_mapM {f : α → Except ε β} {xs : List α} {ys : List β}
    (h : xs.mapM f = .ok ys) {x : α} (hx : x ∈ xs) : ∃ y ∈ ys, f x = .ok y := by
  obtain ⟨i, hi⟩ := List.mem_iff_getElem?.mp hx
  obtain ⟨y, hy, hanswer⟩ := exists_getElem?_of_forall₂ (mapM_eq_ok_iff.mp h) hi
  exact ⟨y, List.mem_of_getElem? hy, hanswer⟩

/-- A traversal whose elements all answer succeeds. -/
theorem exists_mapM_of_forall {f : α → Except ε β} {P : β → Prop} {xs : List α}
    (h : ∀ x ∈ xs, ∃ y, f x = .ok y ∧ P y) : ∃ ys, xs.mapM f = .ok ys ∧ ∀ y ∈ ys, P y := by
  induction xs with
  | nil => exact ⟨[], rfl, by simp⟩
  | cons x xs ih =>
    rw [List.forall_mem_cons] at h
    obtain ⟨⟨y, hx, hy⟩, hrest⟩ := h
    obtain ⟨ys, hxs, hys⟩ := ih hrest
    refine ⟨y :: ys, ?_, List.forall_mem_cons.mpr ⟨hy, hys⟩⟩
    rw [List.mapM_cons]
    exact bind_eq_ok_iff.mpr ⟨y, hx, bind_eq_ok_iff.mpr ⟨ys, hxs, rfl⟩⟩

/-- Every answer of a traversal is the answer of an element. -/
theorem exists_of_mem_mapM {f : α → Except ε β} {xs : List α} {ys : List β}
    (h : xs.mapM f = .ok ys) {y : β} (hy : y ∈ ys) : ∃ x ∈ xs, f x = .ok y := by
  have hall := mapM_eq_ok_iff.mp h
  clear h
  induction hall with
  | nil => cases hy
  | cons hfirst hrest ih =>
    rcases List.mem_cons.mp hy with rfl | hy
    · exact ⟨_, List.mem_cons_self, hfirst⟩
    · obtain ⟨x, hx, heq⟩ := ih hy
      exact ⟨x, List.mem_cons_of_mem _ hx, heq⟩

/-- What holds of each answer exactly if something holds of its element holds of all answers
exactly if that holds of all elements. -/
theorem forall_mem_mapM_iff {f : α → Except ε β} {P : α → Prop} {Q : β → Prop} {xs : List α}
    {ys : List β} (h : xs.mapM f = .ok ys)
    (hPQ : ∀ x ∈ xs, ∀ y, f x = .ok y → (Q y ↔ P x)) : (∀ y ∈ ys, Q y) ↔ ∀ x ∈ xs, P x := by
  constructor
  · intro hall x hx
    obtain ⟨y, hy, hanswer⟩ := exists_mem_of_mapM h hx
    exact (hPQ x hx y hanswer).mp (hall y hy)
  · intro hall y hy
    obtain ⟨x, hx, hanswer⟩ := exists_of_mem_mapM h hy
    exact (hPQ x hx y hanswer).mpr (hall x hx)

/-- A traversal fails as one of its elements does. -/
theorem exists_of_mapM_eq_error {f : α → Except ε β} {xs : List α} {e : ε}
    (h : xs.mapM f = .error e) : ∃ x ∈ xs, f x = .error e := by
  induction xs with
  | nil => cases h
  | cons x xs ih =>
    rw [List.mapM_cons] at h
    -- The error is that of this entry or of a later one.
    cases hx : f x with
    | error e' =>
      rw [hx] at h
      cases h
      exact ⟨x, List.mem_cons_self, hx⟩
    | ok y =>
      cases hrest : xs.mapM f with
      | error e' =>
        rw [hx, hrest] at h
        cases h
        obtain ⟨other, hother, heq⟩ := ih hrest
        exact ⟨other, List.mem_cons_of_mem _ hother, heq⟩
      | ok ys =>
        rw [hx, hrest] at h
        cases h

theorem mapM_congr {f g : α → Except ε β} {xs : List α} (h : ∀ x ∈ xs, f x = g x) :
    xs.mapM f = xs.mapM g := by
  induction xs with
  | nil => rfl
  | cons x xs ih =>
    rw [List.mapM_cons, List.mapM_cons, h x List.mem_cons_self,
      ih fun y hy => h y (List.mem_cons_of_mem _ hy)]

end LayerFlow.Traversal
