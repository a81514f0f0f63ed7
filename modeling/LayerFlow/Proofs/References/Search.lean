/-
LayerFlow.Proofs.References.Search

The search for a cycle as a run of steps.  A step enters a flow, passes over a root or a reference,
or leaves a flow that has nothing left to follow; a search is over once no root is left, or at a
reference that leads back to its path.  Entering a flow leaves fewer flows to enter, and every
other step shortens what is left to follow, so no run goes on for ever; and a flow is entered only
if it was not entered before.

Main statements: `wellFounded_step`, `exists_run_search`, the answer of the search is that of a
run, and `Fresh.run`, no run enters a flow twice.
-/
import LayerFlow.Proofs.References.Acyclic

namespace LayerFlow.References

variable {refs : References}

/-! ## Steps -/

/-- Where a search stands: the roots that are left, the flows on its path with the references of
each that are still to follow, and the flows that have been entered, the last one first. -/
structure SearchState where
  roots : List Nat
  path : List (Nat × List Nat)
  entered : List Nat

namespace SearchState

/-- Every flow is a root, and none has been entered. -/
def start (refs : References) : SearchState := ⟨List.range refs.length, [], []⟩

/-- What is left to do: the flows to enter, and then the steps that enter none. -/
def effort (refs : References) (s : SearchState) : Nat × Nat :=
  (refs.unseen s.entered, s.roots.length + pathSteps s.path)

/-- One step of a search.  Only the steps that enter a flow add to the flows that were entered. -/
inductive Step (refs : References) : SearchState → SearchState → Prop
  | enterRoot {root : Nat} {roots entered : List Nat}
      (hnew : root < refs.length ∧ root ∉ entered) :
      Step refs ⟨root :: roots, [], entered⟩ ⟨roots, [(root, refs.of root)], root :: entered⟩
  | skipRoot {root : Nat} {roots entered : List Nat}
      (hold : ¬(root < refs.length ∧ root ∉ entered)) :
      Step refs ⟨root :: roots, [], entered⟩ ⟨roots, [], entered⟩
  | leave {id : Nat} {path : List (Nat × List Nat)} {roots entered : List Nat} :
      Step refs ⟨roots, (id, []) :: path, entered⟩ ⟨roots, path, entered⟩
  | enter {id next : Nat} {rest : List Nat} {path : List (Nat × List Nat)}
      {roots entered : List Nat} (hnew : next < refs.length ∧ next ∉ entered) :
      Step refs ⟨roots, (id, next :: rest) :: path, entered⟩
        ⟨roots, (next, refs.of next) :: (id, rest) :: path, next :: entered⟩
  | skip {id next : Nat} {rest : List Nat} {path : List (Nat × List Nat)}
      {roots entered : List Nat} (hold : ¬(next < refs.length ∧ next ∉ entered))
      (hoff : ¬(next = id ∨ next ∈ path.map Prod.fst)) :
      Step refs ⟨roots, (id, next :: rest) :: path, entered⟩ ⟨roots, (id, rest) :: path, entered⟩

/-- Where a search ends, and its answer there. -/
inductive Answers (refs : References) : SearchState → Option (Nat × Nat) → Prop
  | nothingLeft {entered : List Nat} : Answers refs ⟨[], [], entered⟩ none
  | closing {id next : Nat} {rest : List Nat} {path : List (Nat × List Nat)}
      {roots entered : List Nat} (hold : ¬(next < refs.length ∧ next ∉ entered))
      (hback : next = id ∨ next ∈ path.map Prod.fst) :
      Answers refs ⟨roots, (id, next :: rest) :: path, entered⟩ (some (id, next))

/-- Every step leaves less to do. -/
theorem Step.effort_lt {s t : SearchState} (h : Step refs s t) :
    Prod.Lex (· < ·) (· < ·) (t.effort refs) (s.effort refs) := by
  cases h with
  | enterRoot hnew => exact .left _ _ (unseen_lt hnew.1 hnew.2)
  | skipRoot hold => exact .right _ (by simp)
  | leave => exact .right _ (by simp [pathSteps])
  | enter hnew => exact .left _ _ (unseen_lt hnew.1 hnew.2)
  | skip hold hoff => exact .right _ (by simp [pathSteps])

/-- No search goes on for ever, wherever it starts. -/
theorem wellFounded_step (refs : References) :
    WellFounded fun t s : SearchState => Step refs s t :=
  Subrelation.wf Step.effort_lt
    (InvImage.wf (effort refs) (Prod.lex Nat.lt_wfRel Nat.lt_wfRel).wf)

/-- The search runs through steps until it has its answer. -/
theorem exists_run_search (roots : List Nat) (path : List (Nat × List Nat)) (seen : List Nat) :
    ∃ last, Relation.ReflTransGen (Step refs) ⟨roots, path, seen⟩ last ∧
      Answers refs last (search refs roots path seen) := by
  fun_induction search refs roots path seen with
  | case1 seen => exact ⟨_, .refl, .nothingLeft⟩
  | case2 seen root roots hnew ih =>
    obtain ⟨last, hrun, hanswer⟩ := ih
    exact ⟨last, .head (.enterRoot hnew) hrun, hanswer⟩
  | case3 seen root roots hold ih =>
    obtain ⟨last, hrun, hanswer⟩ := ih
    exact ⟨last, .head (.skipRoot hold) hrun, hanswer⟩
  | case4 seen id path roots ih =>
    obtain ⟨last, hrun, hanswer⟩ := ih
    exact ⟨last, .head .leave hrun, hanswer⟩
  | case5 seen id next rest path roots hnew ih =>
    obtain ⟨last, hrun, hanswer⟩ := ih
    exact ⟨last, .head (.enter hnew) hrun, hanswer⟩
  | case6 seen id next rest path roots hold hback => exact ⟨_, .refl, .closing hold hback⟩
  | case7 seen id next rest path roots hold hoff ih =>
    obtain ⟨last, hrun, hanswer⟩ := ih
    exact ⟨last, .head (.skip hold hoff) hrun, hanswer⟩

/-! ## The flows that are entered -/

/-- The flows that have been entered exist, and none was entered twice. -/
structure Fresh (refs : References) (s : SearchState) : Prop where
  nodup : s.entered.Nodup
  lt_length : ∀ id ∈ s.entered, id < refs.length

theorem fresh_start (refs : References) : Fresh refs (start refs) := ⟨.nil, by simp [start]⟩

/-- Entering a flow that was not entered before keeps the flows different. -/
theorem Fresh.cons {s : SearchState} (h : Fresh refs s) {id : Nat}
    (hnew : id < refs.length ∧ id ∉ s.entered) (roots : List Nat) (path : List (Nat × List Nat)) :
    Fresh refs ⟨roots, path, id :: s.entered⟩ :=
  ⟨h.nodup.cons hnew.2, List.forall_mem_cons.mpr ⟨hnew.1, h.lt_length⟩⟩

theorem Fresh.step {s t : SearchState} (h : Fresh refs s) (hstep : Step refs s t) :
    Fresh refs t := by
  cases hstep with
  | enterRoot hnew => exact h.cons hnew _ _
  | skipRoot hold => exact ⟨h.nodup, h.lt_length⟩
  | leave => exact ⟨h.nodup, h.lt_length⟩
  | enter hnew => exact h.cons hnew _ _
  | skip hold hoff => exact ⟨h.nodup, h.lt_length⟩

theorem Fresh.run {s t : SearchState} (h : Fresh refs s)
    (hrun : Relation.ReflTransGen (Step refs) s t) : Fresh refs t := by
  induction hrun with
  | refl => exact h
  | tail _ hstep ih => exact ih.step hstep

end SearchState

end LayerFlow.References
