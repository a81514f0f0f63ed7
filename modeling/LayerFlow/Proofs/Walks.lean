/-
LayerFlow.Proofs.Walks

Counting walks.  A walk along labelled edges is written as its labels; where the label tells the
edge, different walks are different lists.  The walks from a node to another one are counted by
the edges that leave the node: each of them starts those that go on from its end.

Main statements: `counts_of_edges`, the count by first edges, and `counts_reverse`, the same walks
taken the other way.
-/
import Mathlib.Data.List.Forall2
import Mathlib.Data.Set.Card
import Mathlib.Order.CompletePartialOrder

namespace LayerFlow

/-! ## Sets with a number of elements -/

/-- A finite set with so many elements. -/
structure Counts {α : Type} (A : Set α) (n : Nat) : Prop where
  finite : A.Finite
  ncard : A.ncard = n

namespace Counts

variable {α β : Type} {A B : Set α} {m n : Nat}

theorem empty : Counts (∅ : Set α) 0 := ⟨Set.finite_empty, Set.ncard_empty α⟩

theorem singleton (a : α) : Counts ({a} : Set α) 1 :=
  ⟨Set.finite_singleton a, Set.ncard_singleton a⟩

theorem image (h : Counts A n) {f : α → β} (hf : Function.Injective f) : Counts (f '' A) n where
  finite := h.finite.image f
  ncard := by rw [Set.ncard_image_of_injective A hf, h.ncard]

theorem union (hA : Counts A m) (hB : Counts B n) (hdisjoint : Disjoint A B) :
    Counts (A ∪ B) (m + n) where
  finite := hA.finite.union hB.finite
  ncard := by rw [Set.ncard_union_eq hdisjoint hA.finite hB.finite, hA.ncard, hB.ncard]

/-- Something is in the set exactly if the number is not zero. -/
theorem nonempty_iff (h : Counts A n) : A.Nonempty ↔ 0 < n := by
  rw [← h.ncard, Set.ncard_pos h.finite]

end Counts

/-! ## Walks -/

/-- A walk from one node to another along labelled edges. -/
inductive Walk {V L : Type} (edge : V → L → V → Prop) : V → List L → V → Prop
  | stop (v : V) : Walk edge v [] v
  | step {v w u : V} {label : L} {labels : List L} (hedge : edge v label w)
      (hrest : Walk edge w labels u) : Walk edge v (label :: labels) u

variable {V L : Type} {edge : V → L → V → Prop}

/-- All walks from one node to another. -/
def walks (edge : V → L → V → Prop) (v u : V) : Set (List L) := {labels | Walk edge v labels u}

theorem Walk.append {v w u : V} {first second : List L} (h : Walk edge v first w)
    (h' : Walk edge w second u) : Walk edge v (first ++ second) u := by
  induction h with
  | stop v => exact h'
  | step hedge hrest ih => exact .step hedge (ih h')

theorem Walk.reverse {v u : V} {labels : List L} (h : Walk edge v labels u) :
    Walk (fun v label w => edge w label v) u labels.reverse v := by
  induction h with
  | stop v => exact .stop v
  | step hedge hrest ih =>
    rw [List.reverse_cons]
    exact ih.append (.step hedge (.stop _))

/-- The walks from one node to another are those back, taken the other way. -/
theorem counts_reverse {v u : V} {n : Nat} (h : Counts (walks edge v u) n) :
    Counts (walks (fun v label w => edge w label v) u v) n := by
  -- Turning a walk around and back gives the walk itself, so none is counted twice.
  have himage : walks (fun v label w => edge w label v) u v =
      List.reverse '' walks edge v u := by
    ext labels
    constructor
    · intro hwalk
      exact ⟨labels.reverse, hwalk.reverse, List.reverse_reverse labels⟩
    · rintro ⟨back, hwalk, rfl⟩
      exact hwalk.reverse
  rw [himage]
  exact h.image List.reverse_injective

/-! ## Counting by first edges -/

/-- No edge leads away from the end of a walk, so it is a walk of its own and the only one. -/
theorem counts_self {v : V} (h : ∀ label w, ¬ edge v label w) : Counts (walks edge v v) 1 := by
  have hsingle : walks edge v v = {[]} := by
    ext labels
    constructor
    · rintro (_ | ⟨hedge, -⟩)
      · rfl
      · exact absurd hedge (h _ _)
    · rintro rfl
      exact .stop v
  rw [hsingle]
  exact .singleton []

/-- The walks that start with one of some edges. -/
def walksVia (edge : V → L → V → Prop) (u : V) (edges : List (L × V)) : Set (List L) :=
  {labels | ∃ e ∈ edges, ∃ rest, labels = e.1 :: rest ∧ Walk edge e.2 rest u}

theorem walksVia_cons (u : V) (e : L × V) (edges : List (L × V)) :
    walksVia edge u (e :: edges) = List.cons e.1 '' walks edge e.2 u ∪ walksVia edge u edges := by
  ext labels
  constructor
  · rintro ⟨first, hfirst, rest, rfl, hwalk⟩
    rcases List.mem_cons.mp hfirst with rfl | hlater
    · exact .inl ⟨rest, hwalk, rfl⟩
    · exact .inr ⟨first, hlater, rest, rfl, hwalk⟩
  · rintro (⟨rest, hwalk, rfl⟩ | ⟨first, hlater, rest, rfl, hwalk⟩)
    · exact ⟨e, List.mem_cons_self, rest, rfl, hwalk⟩
    · exact ⟨first, List.mem_cons_of_mem e hlater, rest, rfl, hwalk⟩

theorem counts_walksVia {u : V} {edges : List (L × V)} {counts : List Nat}
    (hcounts : List.Forall₂ (fun e n => Counts (walks edge e.2 u) n) edges counts)
    (hnodup : (edges.map Prod.fst).Nodup) : Counts (walksVia edge u edges) counts.sum := by
  induction hcounts with
  | nil =>
    have hempty : walksVia edge u [] = ∅ := by
      ext labels
      simp [walksVia]
    rw [hempty]
    exact .empty
  | @cons e n edges counts hfirst hrest ih =>
    obtain ⟨hnew, hnodup⟩ := List.nodup_cons.mp hnodup
    rw [walksVia_cons, List.sum_cons]
    refine (hfirst.image (List.cons_injective (a := e.1))).union (ih hnodup) ?_
    -- The label of the first edge tells it from the others.
    rw [Set.disjoint_left]
    rintro _ ⟨rest, -, rfl⟩ ⟨other, hother, rest', heq, -⟩
    apply hnew
    rw [(List.cons_eq_cons.mp heq).1]
    exact List.mem_map_of_mem hother

/-- The walks from a node to another one are counted by the edges that leave it. -/
theorem counts_of_edges {v u : V} (hne : v ≠ u) {edges : List (L × V)} {counts : List Nat}
    (hedges : ∀ label w, edge v label w ↔ (label, w) ∈ edges)
    (hnodup : (edges.map Prod.fst).Nodup)
    (hcounts : List.Forall₂ (fun e n => Counts (walks edge e.2 u) n) edges counts) :
    Counts (walks edge v u) counts.sum := by
  -- The empty walk ends elsewhere, so every walk has a first edge.
  have hvia : walks edge v u = walksVia edge u edges := by
    ext labels
    constructor
    · rintro (_ | ⟨hedge, hrest⟩)
      · exact absurd rfl hne
      · exact ⟨_, (hedges _ _).mp hedge, _, rfl, hrest⟩
    · rintro ⟨e, he, rest, rfl, hwalk⟩
      exact Walk.step ((hedges _ _).mpr he) hwalk
  rw [hvia]
  exact counts_walksVia hcounts hnodup

end LayerFlow
