/-
LayerFlow.Graph.References

The references between the flows of a graph, as the list of the ids that each flow reads: the
search for a cycle, the levels of the flows, and the order that the levels give.

The search walks depth first.  It holds the path it is on, with the references of each flow on
the path that are still to follow, and the flows it has seen; it reports the first reference
that leads back to the path.

Main statement: `unseen_lt`, entering a flow leaves fewer flows to enter, so the search ends
and enters each flow at most once.
-/

namespace LayerFlow

/-- For each flow the ids that it reads. -/
abbrev References : Type := List (List Nat)

namespace References

/-- The ids that a flow reads. -/
def of (refs : References) (id : Nat) : List Nat := refs[id]?.getD []

/-! ## The search for a cycle -/

/-- The number of flows not seen yet. -/
def unseen (refs : References) (seen : List Nat) : Nat :=
  (List.range refs.length).countP fun id => id ∉ seen

theorem countP_not_mem_cons_lt {id : Nat} {seen ids : List Nat} (hmem : id ∈ ids)
    (hnew : id ∉ seen) :
    (ids.countP fun i => i ∉ id :: seen) < ids.countP fun i => i ∉ seen := by
  -- Without the new flow the count cannot grow, whatever the list.
  have hle : ∀ l : List Nat,
      (l.countP fun i => i ∉ id :: seen) ≤ l.countP fun i => i ∉ seen := by
    intro l
    apply List.countP_mono_left
    intro i _ hi
    simp only [decide_eq_true_eq] at hi ⊢
    exact fun h => hi (List.mem_cons_of_mem _ h)
  induction ids with
  | nil => cases hmem
  | cons first rest ih =>
    by_cases heq : first = id
    · subst heq
      have := hle rest
      simp [hnew]
      simp at this
      omega
    · rcases List.mem_cons.mp hmem with h | h
      · exact absurd h.symm heq
      · have := ih h
        simp only [List.countP_cons, List.mem_cons, heq, false_or] at this ⊢
        omega

/-- Entering a flow leaves fewer flows to enter. -/
theorem unseen_lt {refs : References} {seen : List Nat} {id : Nat} (hid : id < refs.length)
    (hnew : id ∉ seen) : unseen refs (id :: seen) < unseen refs seen :=
  countP_not_mem_cons_lt (List.mem_range.mpr hid) hnew

/-- The number of steps that a path can take without entering a flow. -/
def pathSteps (path : List (Nat × List Nat)) : Nat :=
  path.foldr (fun frame steps => frame.2.length + 1 + steps) 0

/-- Searches from the flows in `roots`, after the walk along `path`; `seen` are the flows that
have been entered. -/
def search (refs : References) (roots : List Nat) (path : List (Nat × List Nat))
    (seen : List Nat) : Option (Nat × Nat) :=
  match path, roots with
  | [], [] => none
  | [], root :: roots =>
    if _h : root < refs.length ∧ root ∉ seen then
      search refs roots [(root, refs.of root)] (root :: seen)
    else search refs roots [] seen
  | (_, []) :: path, roots => search refs roots path seen
  | (id, next :: rest) :: path, roots =>
    if _h : next < refs.length ∧ next ∉ seen then
      search refs roots ((next, refs.of next) :: (id, rest) :: path) (next :: seen)
    else if next = id ∨ next ∈ path.map Prod.fst then some (id, next)
    else search refs roots ((id, rest) :: path) seen
termination_by (unseen refs seen, roots.length + pathSteps path)
decreasing_by
  -- A new root or a new flow on the path leaves fewer flows to enter; every other step shortens
  -- what is left to follow.
  · exact Prod.Lex.left _ _ (unseen_lt _h.1 _h.2)
  · exact Prod.Lex.right _ (by simp [pathSteps])
  · exact Prod.Lex.right _ (by simp [pathSteps])
  · exact Prod.Lex.left _ _ (unseen_lt _h.1 _h.2)
  · exact Prod.Lex.right _ (by simp [pathSteps])

/-- The reference that closes a cycle, reader first. -/
def closingEdge? (refs : References) : Option (Nat × Nat) :=
  search refs (List.range refs.length) [] []

/-! ## Levels -/

/-- The largest number of a list; zero for an empty one. -/
def largest (ns : List Nat) : Nat := ns.foldr max 0

/-- One round of lifting: a flow comes one above the highest flow that it reads. -/
def lift (refs : References) (levels : List Nat) : List Nat :=
  refs.map fun ids => largest (ids.map fun id => levels[id]?.getD 0 + 1)

/-- Several rounds of lifting. -/
def liftTimes (refs : References) : Nat → List Nat → List Nat
  | 0, levels => levels
  | n + 1, levels => liftTimes refs n (lift refs levels)

/-- The level of each flow: the length of the longest chain of references below it.  As many
rounds as there are flows reach every chain.  A recursion over the flows that are read finds the
same levels where there is no cycle, and ends only there; the rounds always end. -/
def levels (refs : References) : List Nat :=
  liftTimes refs refs.length (List.replicate refs.length 0)

/-- The ids on each level, ascending, from level zero on. -/
def groupByLevel (levels : List Nat) : List (List Nat) :=
  (List.range levels.length).map fun level =>
    (List.range levels.length).filter fun id => levels[id]? = some level

/-- The order of evaluation: level by level, ascending on each. -/
def order (refs : References) : List Nat := (groupByLevel (levels refs)).flatten

/-- The flows that read no other flow. -/
def entryPoints (refs : References) : List Nat :=
  (List.range refs.length).filter fun id => (refs.of id).isEmpty

/-- The flows that read a flow. -/
def readers (refs : References) (id : Nat) : List Nat :=
  (List.range refs.length).filter fun reader => id ∈ refs.of reader

/-- The flows that no flow reads. -/
def exitPoints (refs : References) : List Nat :=
  (List.range refs.length).filter fun id => (readers refs id).isEmpty

end References

end LayerFlow
