/-
LayerFlow.Proofs.References.Acyclic

Cycles of references, and the search that finds them.  A flow is *grounded* when every chain of
references below it ends; the search keeps that every flow it has seen is grounded or still on
its path, so a search that finds nothing has grounded every flow.  The other way round, the
flows on the path are linked by references, so an edge that leads back to the path closes a
cycle.

Main statements: `closingEdge?_eq_none_iff`, the search finds an edge exactly if there is a
cycle, and `height_lt_of_reads`, without cycles the flows are ranked by the flows below them.
-/
import LayerFlow.Graph.References
import Mathlib.Data.Finset.Card
import Mathlib.Logic.Relation

namespace LayerFlow.References

/-! ## Reading, cycles, ranks -/

/-- Whether a flow reads another one. -/
def Reads (refs : References) (reader source : Nat) : Prop := source ∈ refs.of reader

instance (refs : References) (reader source : Nat) : Decidable (refs.Reads reader source) :=
  inferInstanceAs (Decidable (source ∈ refs.of reader))

/-- No flow reads itself, directly or through others. -/
def Acyclic (refs : References) : Prop := ∀ id, ¬ Relation.TransGen refs.Reads id id

/-- All references point at flows of the graph. -/
def InRange (refs : References) : Prop :=
  ∀ reader source, refs.Reads reader source → source < refs.length

/-- A rank that falls along every reference. -/
def Ranked (refs : References) (rank : Nat → Nat) : Prop :=
  ∀ reader source, refs.Reads reader source → rank source < rank reader

theorem lt_length_of_reads {refs : References} {reader source : Nat}
    (h : refs.Reads reader source) : reader < refs.length := by
  by_contra hge
  have hnone : refs[reader]? = none := List.getElem?_eq_none (by omega)
  simp [Reads, of, hnone] at h

/-- A rank falls along every chain of references. -/
theorem Ranked.lt_of_transGen {refs : References} {rank : Nat → Nat} (h : refs.Ranked rank)
    {reader source : Nat} (hchain : Relation.TransGen refs.Reads reader source) :
    rank source < rank reader := by
  induction hchain with
  | single hread => exact h _ _ hread
  | tail _ hread ih => exact lt_trans (h _ _ hread) ih

theorem Ranked.acyclic {refs : References} {rank : Nat → Nat} (h : refs.Ranked rank) :
    refs.Acyclic := by
  intro id hchain
  exact lt_irrefl _ (h.lt_of_transGen hchain)

/-- The number of flows below a flow. -/
noncomputable def height (refs : References) (id : Nat) : Nat := by
  classical
  exact ((Finset.range refs.length).filter fun source =>
    Relation.TransGen refs.Reads id source).card

theorem height_lt_of_reads {refs : References} (hacyclic : refs.Acyclic)
    (hrange : refs.InRange) {reader source : Nat} (hread : refs.Reads reader source) :
    refs.height source < refs.height reader := by
  classical
  apply Finset.card_lt_card
  rw [Finset.ssubset_iff_of_subset]
  · -- The source itself lies below the reader, but not below itself.
    refine ⟨source, ?_, ?_⟩
    · simpa using ⟨hrange _ _ hread, Relation.TransGen.single hread⟩
    · simpa using fun _ => hacyclic source
  · intro below hbelow
    simp only [Finset.mem_filter] at hbelow ⊢
    exact ⟨hbelow.1, Relation.TransGen.head hread hbelow.2⟩

theorem height_lt_length {refs : References} (hacyclic : refs.Acyclic) {id : Nat}
    (hid : id < refs.length) : refs.height id < refs.length := by
  classical
  have hss : ((Finset.range refs.length).filter fun source =>
      Relation.TransGen refs.Reads id source) ⊂ Finset.range refs.length := by
    rw [Finset.ssubset_iff_of_subset (Finset.filter_subset _ _)]
    exact ⟨id, by simpa using hid, by simpa using fun _ => hacyclic id⟩
  have hcard := Finset.card_lt_card hss
  rw [Finset.card_range] at hcard
  exact hcard

/-! ## A search that finds nothing -/

/-- Every chain of references below the flow ends. -/
def Grounded (refs : References) (id : Nat) : Prop :=
  Acc (fun source reader => refs.Reads reader source) id

theorem grounded_of_forall {refs : References} {id : Nat}
    (h : ∀ next, refs.Reads id next → refs.Grounded next) : refs.Grounded id :=
  Acc.intro id h

theorem grounded_of_length_le {refs : References} {id : Nat} (h : refs.length ≤ id) :
    refs.Grounded id :=
  grounded_of_forall fun _ hread => absurd (lt_length_of_reads hread) (by omega)

theorem Grounded.not_transGen {refs : References} {id : Nat} (h : refs.Grounded id) :
    ¬ Relation.TransGen refs.Reads id id := by
  induction h with
  | intro id _ ih =>
    intro hcycle
    -- A cycle through the flow is also a cycle through the flow it reads first.
    obtain ⟨next, hread, hback⟩ := Relation.TransGen.head'_iff.mp hcycle
    exact ih next hread (Relation.TransGen.tail' hback hread)

/-- For every flow on the path, what it reads is still to follow, or grounded, or the flow that
the walk entered from there. -/
def Followed (refs : References) : (entered : Option Nat) → List (Nat × List Nat) → Prop
  | _, [] => True
  | entered, (id, rest) :: path =>
    (∀ next, refs.Reads id next → next ∈ rest ∨ refs.Grounded next ∨ entered = some next) ∧
      Followed refs (some id) path

/-- Once the flow entered from the top of the path is grounded, it needs no mention. -/
theorem Followed.of_grounded {refs : References} {id : Nat} {path : List (Nat × List Nat)}
    (h : Followed refs (some id) path) (hid : refs.Grounded id) : Followed refs none path := by
  cases path with
  | nil => trivial
  | cons frame path =>
    obtain ⟨hframe, hpath⟩ := h
    refine ⟨fun next hread => ?_, hpath⟩
    rcases hframe next hread with hrest | hground | hentered
    · exact .inl hrest
    · exact .inr (.inl hground)
    · cases hentered
      exact .inr (.inl hid)

/-- A flow with nothing left to follow is grounded. -/
theorem Followed.grounded {refs : References} {id : Nat} {path : List (Nat × List Nat)}
    (h : Followed refs none ((id, []) :: path)) : refs.Grounded id := by
  apply grounded_of_forall
  intro next hread
  rcases h.1 next hread with hrest | hground | hentered
  · exact absurd hrest List.not_mem_nil
  · exact hground
  · cases hentered

/-- The walk enters the next flow. -/
theorem Followed.enter {refs : References} {id next : Nat} {rest : List Nat}
    {path : List (Nat × List Nat)} (h : Followed refs none ((id, next :: rest) :: path)) :
    Followed refs none ((next, refs.of next) :: (id, rest) :: path) := by
  refine ⟨fun _ hread => .inl hread, fun other hread => ?_, h.2⟩
  rcases h.1 other hread with hrest | hground | hentered
  · rcases List.mem_cons.mp hrest with rfl | hrest
    · exact .inr (.inr rfl)
    · exact .inl hrest
  · exact .inr (.inl hground)
  · cases hentered

/-- The walk passes over a flow that is grounded. -/
theorem Followed.skip {refs : References} {id next : Nat} {rest : List Nat}
    {path : List (Nat × List Nat)} (h : Followed refs none ((id, next :: rest) :: path))
    (hnext : refs.Grounded next) : Followed refs none ((id, rest) :: path) := by
  refine ⟨fun other hread => ?_, h.2⟩
  rcases h.1 other hread with hrest | hground | hentered
  · rcases List.mem_cons.mp hrest with rfl | hrest
    · exact .inr (.inl hnext)
    · exact .inl hrest
  · exact .inr (.inl hground)
  · cases hentered

/-- Every flow that the search has seen is on its path or grounded. -/
def Marked (refs : References) (path : List (Nat × List Nat)) (seen : List Nat) : Prop :=
  ∀ id ∈ seen, id ∈ path.map Prod.fst ∨ refs.Grounded id

theorem Marked.enter {refs : References} {path : List (Nat × List Nat)} {seen : List Nat}
    (h : Marked refs path seen) (id : Nat) (rest : List Nat) :
    Marked refs ((id, rest) :: path) (id :: seen) := by
  intro other hother
  rw [List.map_cons, List.mem_cons]
  rcases List.mem_cons.mp hother with rfl | hother
  · exact .inl (.inl rfl)
  · rcases h other hother with hon | hground
    · exact .inl (.inr hon)
    · exact .inr hground

theorem Marked.leave {refs : References} {path : List (Nat × List Nat)} {seen : List Nat}
    {id : Nat} {rest : List Nat} (h : Marked refs ((id, rest) :: path) seen)
    (hid : refs.Grounded id) : Marked refs path seen := by
  intro other hother
  rcases h other hother with hon | hground
  · rcases List.mem_cons.mp hon with rfl | hon
    · exact .inr hid
    · exact .inl hon
  · exact .inr hground

/-- A flow that the search does not enter is out of range, or seen and off the path: grounded
either way. -/
theorem Marked.grounded {refs : References} {path : List (Nat × List Nat)} {seen : List Nat}
    (h : Marked refs path seen) {id : Nat} (hold : ¬(id < refs.length ∧ id ∉ seen))
    (hoff : id ∉ path.map Prod.fst) : refs.Grounded id := by
  by_cases hlt : id < refs.length
  · have hmem : id ∈ seen := by
      by_contra hnot
      exact hold ⟨hlt, hnot⟩
    exact (h id hmem).resolve_left hoff
  · exact grounded_of_length_le (by omega)

/-- A search that finds nothing grounds the flows it has seen and the roots left to it. -/
theorem grounded_of_search_eq_none {refs : References} {roots : List Nat}
    {path : List (Nat × List Nat)} {seen : List Nat}
    (h : search refs roots path seen = none) (hseen : Marked refs path seen)
    (hpath : Followed refs none path) :
    (∀ id ∈ seen, refs.Grounded id) ∧ ∀ id ∈ roots, refs.Grounded id := by
  fun_induction search refs roots path seen with
  | case1 seen =>
    refine ⟨fun id hid => ?_, by simp⟩
    exact (hseen id hid).resolve_left List.not_mem_nil
  | case2 seen root roots hnew ih =>
    have hstart : Followed refs none [(root, refs.of root)] := ⟨fun _ hread => .inl hread, trivial⟩
    obtain ⟨hall, hroots⟩ := ih h (hseen.enter root _) hstart
    rw [List.forall_mem_cons] at hall ⊢
    exact ⟨hall.2, hall.1, hroots⟩
  | case3 seen root roots hold ih =>
    obtain ⟨hall, hroots⟩ := ih h hseen trivial
    rw [List.forall_mem_cons]
    exact ⟨hall, hseen.grounded hold List.not_mem_nil, hroots⟩
  | case4 seen id path roots ih =>
    -- Everything the top of the path reads is grounded, so the top is.
    have hid := hpath.grounded
    exact ih h (hseen.leave hid) (hpath.2.of_grounded hid)
  | case5 seen id next rest path roots hnew ih =>
    have hmarked : Marked refs ((id, rest) :: path) seen := hseen
    obtain ⟨hall, hroots⟩ := ih h (hmarked.enter next _) hpath.enter
    rw [List.forall_mem_cons] at hall
    exact ⟨hall.2, hroots⟩
  | case6 seen id next rest path roots hold hback => cases h
  | case7 seen id next rest path roots hold hback ih =>
    have hoff : next ∉ ((id, next :: rest) :: path).map Prod.fst := by
      rw [List.map_cons, List.mem_cons]
      exact hback
    exact ih h hseen (hpath.skip (hseen.grounded hold hoff))

/-! ## A search that finds an edge -/

/-- Each flow on the path was entered from the one below it, and what is left to follow are
references of the flow. -/
def Linked (refs : References) : (entered : Option Nat) → List (Nat × List Nat) → Prop
  | _, [] => True
  | entered, (id, rest) :: path =>
    (∀ next ∈ rest, refs.Reads id next) ∧ (∀ next ∈ entered, refs.Reads id next) ∧
      Linked refs (some id) path

/-- Every flow on the path reaches the flow that the walk entered last. -/
theorem Linked.reaches {refs : References} {entered : Nat} {path : List (Nat × List Nat)}
    (h : Linked refs (some entered) path) {id : Nat} (hid : id ∈ path.map Prod.fst) :
    Relation.ReflTransGen refs.Reads id entered := by
  induction path generalizing entered with
  | nil => cases hid
  | cons frame path ih =>
    obtain ⟨-, hentered, hpath⟩ := h
    have hstep : refs.Reads frame.1 entered := hentered entered rfl
    rcases List.mem_cons.mp hid with rfl | hid
    · exact Relation.ReflTransGen.single hstep
    · exact (ih hpath hid).tail hstep

/-- An edge that the search reports is a reference whose source reaches its reader. -/
theorem cycle_of_search_eq_some {refs : References} {roots : List Nat}
    {path : List (Nat × List Nat)} {seen : List Nat} {reader source : Nat}
    (h : search refs roots path seen = some (reader, source)) (hpath : Linked refs none path) :
    refs.Reads reader source ∧ Relation.ReflTransGen refs.Reads source reader := by
  fun_induction search refs roots path seen with
  | case1 seen => cases h
  | case2 seen root roots hnew ih =>
    exact ih h ⟨fun _ hnext => hnext, by simp, trivial⟩
  | case3 seen root roots hold ih => exact ih h trivial
  | case4 seen id path roots ih =>
    refine ih h ?_
    -- Leaving a flow forgets that it was entered from the one below.
    cases path with
    | nil => trivial
    | cons frame path => exact ⟨hpath.2.2.1, by simp, hpath.2.2.2.2⟩
  | case5 seen id next rest path roots hnew ih =>
    obtain ⟨hrest, -, hbelow⟩ := hpath
    refine ih h ⟨fun _ hnext => hnext, by simp,
      fun other hother => hrest other (List.mem_cons_of_mem _ hother), ?_, hbelow⟩
    rintro other ⟨⟩
    exact hrest next List.mem_cons_self
  | case6 seen id next rest path roots hold hback =>
    cases h
    refine ⟨hpath.1 source List.mem_cons_self, ?_⟩
    rcases hback with rfl | hon
    · exact Relation.ReflTransGen.refl
    · exact hpath.2.2.reaches hon
  | case7 seen id next rest path roots hold hback ih =>
    exact ih h ⟨fun other hother => hpath.1 other (List.mem_cons_of_mem _ hother), hpath.2⟩

/-! ## Both together -/

/-- The search reports an edge exactly if there is a cycle. -/
theorem closingEdge?_eq_none_iff {refs : References} :
    refs.closingEdge? = none ↔ refs.Acyclic := by
  constructor
  · intro h id
    have hstart : Marked refs [] [] := fun _ hseen => absurd hseen List.not_mem_nil
    obtain ⟨-, hroots⟩ := grounded_of_search_eq_none h hstart trivial
    by_cases hlt : id < refs.length
    · exact (hroots id (List.mem_range.mpr hlt)).not_transGen
    · exact (grounded_of_length_le (by omega)).not_transGen
  · intro hacyclic
    rcases hedge : refs.closingEdge? with _ | ⟨reader, source⟩
    · rfl
    · obtain ⟨hread, hback⟩ := cycle_of_search_eq_some hedge trivial
      exact absurd (Relation.TransGen.head' hread hback) (hacyclic reader)

end LayerFlow.References
