/-
LayerFlow.Proofs.References.Recursion

The analysis of references by a recursion.  The level of a flow is found from the levels of the
flows that it reads, and a table keeps every level that was found, so that no flow is visited
twice.  Without cycles there are fewer flows below each flow that is read, so the recursion ends.
The flows are sorted by the levels found, and exit points are the flows outside the set of those
that are read.

Main statement: `analysis_eq_visited`, the recursion finds what the rounds of lifting find.
-/
import LayerFlow.Graph
import LayerFlow.Proofs.References.Order

namespace LayerFlow.References

variable {refs : References}

/-! ## Visits -/

/-- The level of each flow, as far as it was found. -/
abbrev Table : Type := List (Option Nat)

/-- The level of a flow, and the table after the visit.  A level that the table has is not looked
for again; otherwise the flow lies one above the highest flow that it reads. -/
def visitLevel (hacyclic : refs.Acyclic) (hrange : refs.InRange) (id : Nat) (table : Table) :
    Nat × Table :=
  match table[id]?.join with
  | some level => (level, table)
  | none =>
    let below := (refs.of id).attach.foldl (fun (highest : Nat × Table) source =>
      let visited := visitLevel hacyclic hrange source.1 highest.2
      (max highest.1 (visited.1 + 1), visited.2)) (0, table)
    (below.1, below.2.set id (some below.1))
termination_by refs.height id
decreasing_by exact height_lt_of_reads hacyclic hrange source.2

/-- The levels of all flows: each flow is visited in turn, with the table that the others left. -/
def visitedLevels (hacyclic : refs.Acyclic) (hrange : refs.InRange) : List Nat :=
  ((List.range refs.length).foldl (fun table id => (visitLevel hacyclic hrange id table).2)
    (List.replicate refs.length none)).map fun found => found.getD 0

/-- Whether a flow comes before another one, or is the same: by level, and by id on each level. -/
def comesBefore (levels : List Nat) (first second : Nat) : Bool :=
  levelIn levels first < levelIn levels second ||
    levelIn levels first == levelIn levels second && first ≤ second

/-- The analysis of references without cycles by a recursion, a sort and a set. -/
def visitedAnalysis (hacyclic : refs.Acyclic) (hrange : refs.InRange) : Analysis where
  entryPoints := refs.entryPoints
  exitPoints := (List.range refs.length).filter fun id => id ∉ refs.flatten
  order := (List.range refs.length).mergeSort (comesBefore (visitedLevels hacyclic hrange))
  levels := visitedLevels hacyclic hrange

/-! ## What visits find -/

/-- The table has a place for each flow, and the levels in it are right. -/
structure Table.Right (refs : References) (table : Table) : Prop where
  length : table.length = refs.length
  level : ∀ id level : Nat, table[id]? = some (some level) → level = refs.level id

/-- No level is lost from the one table to the other. -/
def Table.Grows (table table' : Table) : Prop :=
  ∀ id level : Nat, table[id]? = some (some level) → table'[id]? = some (some level)

/-- What a visit of a flow leaves: its level, and a table that is right and has this level. -/
structure Visited (refs : References) (table : Table) (id : Nat) (out : Nat × Table) : Prop where
  level : out.1 = refs.level id
  right : out.2.Right refs
  grows : table.Grows out.2
  found : id < refs.length → out.2[id]? = some (some (refs.level id))

theorem Table.Grows.refl (table : Table) : table.Grows table := fun _ _ h => h

theorem Table.Grows.trans {first second third : Table} (h : first.Grows second)
    (h' : second.Grows third) : first.Grows third :=
  fun id level hfound => h' id level (h id level hfound)

/-- A right level may be put into a right table. -/
theorem Table.Right.set {table : Table} (h : table.Right refs) (id : Nat) :
    Table.Right refs (table.set id (some (refs.level id))) := by
  refine ⟨by rw [List.length_set, h.length], fun other level hfound => ?_⟩
  rw [List.getElem?_set] at hfound
  split at hfound
  · next heq =>
    subst heq
    split at hfound
    · exact (Option.some.inj (Option.some.inj hfound)).symm
    · cases hfound
  · exact h.level other level hfound

theorem Table.Right.grows_set {table : Table} (h : table.Right refs) (id : Nat) :
    table.Grows (table.set id (some (refs.level id))) := by
  intro other level hfound
  rw [List.getElem?_set]
  split
  · next heq =>
    subst heq
    rw [if_pos (List.getElem?_eq_some_iff.mp hfound).1, h.level id level hfound]
  · exact hfound

/-- Visits of several flows find the highest of them. -/
theorem visited_foldl {sources : List Nat}
    {visit : {source // source ∈ sources} → Table → Nat × Table}
    (hvisit : ∀ source table, table.Right refs → Visited refs table source.1 (visit source table))
    (left : List {source // source ∈ sources}) (highest : Nat) {table : Table}
    (htable : table.Right refs) :
    let out := left.foldl (fun (highest : Nat × Table) source =>
      let visited := visit source highest.2
      (max highest.1 (visited.1 + 1), visited.2)) (highest, table)
    out.1 = max highest (largest (left.map fun source => refs.level source.1 + 1)) ∧
      out.2.Right refs ∧ table.Grows out.2 := by
  induction left generalizing highest table with
  | nil => exact ⟨(Nat.max_zero highest).symm, htable, .refl table⟩
  | cons source left ih =>
    have hfirst := hvisit source table htable
    obtain ⟨hlevel, hright, hgrows⟩ := ih (max highest ((visit source table).1 + 1)) hfirst.right
    refine ⟨hlevel.trans ?_, hright, hfirst.grows.trans hgrows⟩
    rw [hfirst.level, List.map_cons, Nat.max_assoc]
    rfl

/-- A visit finds the level of its flow and loses none that was found before. -/
theorem visited_visitLevel (hacyclic : refs.Acyclic) (hrange : refs.InRange) (id : Nat)
    {table : Table} (htable : table.Right refs) :
    Visited refs table id (visitLevel hacyclic hrange id table) := by
  fun_induction visitLevel hacyclic hrange id table with
  | case1 id table level hfound =>
    have hentry : table[id]? = some (some level) := Option.join_eq_some_iff.mp hfound
    obtain rfl := htable.level id level hentry
    exact ⟨rfl, htable, .refl table, fun _ => hentry⟩
  | case2 id table hnone below ih =>
    -- Whatever is read is visited with a table that is right by then.
    obtain ⟨hhighest, hright, hgrows⟩ := visited_foldl
      (fun source table htable => ih (0, table) source htable) (refs.of id).attach 0 htable
    have hlevel : below.1 = refs.level id := by
      rw [level_eq hacyclic hrange id, ← List.attach_map_val]
      exact hhighest.trans (Nat.zero_max _)
    rw [hlevel]
    refine ⟨rfl, hright.set id, hgrows.trans (hright.grows_set id), fun hid => ?_⟩
    exact List.getElem?_set_self (hright.length ▸ hid)

/-- Every flow of a list that was gone through is found, and stays so. -/
theorem found_foldl_visitLevel (hacyclic : refs.Acyclic) (hrange : refs.InRange) (ids : List Nat)
    {table : Table} (htable : table.Right refs) :
    let after := ids.foldl (fun table id => (visitLevel hacyclic hrange id table).2) table
    after.Right refs ∧ table.Grows after ∧
      ∀ id ∈ ids, id < refs.length → after[id]? = some (some (refs.level id)) := by
  induction ids generalizing table with
  | nil => exact ⟨htable, .refl table, by simp⟩
  | cons first rest ih =>
    have hfirst := visited_visitLevel hacyclic hrange first htable
    obtain ⟨hright, hgrows, hfound⟩ := ih hfirst.right
    refine ⟨hright, hfirst.grows.trans hgrows, fun id hid hlt => ?_⟩
    -- What the first visit found is still there after the others.
    rcases List.mem_cons.mp hid with rfl | hid
    · exact hgrows _ _ (hfirst.found hlt)
    · exact hfound id hid hlt

/-- Once all flows were visited, the table has all levels. -/
theorem visitedLevels_eq (hacyclic : refs.Acyclic) (hrange : refs.InRange) :
    visitedLevels hacyclic hrange = levels refs := by
  have hstart : Table.Right refs (List.replicate refs.length none) := by
    refine ⟨List.length_replicate, fun id level hfound => ?_⟩
    rw [List.getElem?_replicate] at hfound
    split at hfound <;> cases hfound
  obtain ⟨hright, -, hfound⟩ :=
    found_foldl_visitLevel hacyclic hrange (List.range refs.length) hstart
  apply List.ext_getElem?
  intro id
  rw [visitedLevels, List.getElem?_map]
  by_cases hid : id < refs.length
  · rw [hfound id (List.mem_range.mpr hid) hid, getElem?_levels hid]
    rfl
  · rw [List.getElem?_eq_none (by rw [hright.length]; exact Nat.le_of_not_lt hid),
      List.getElem?_eq_none (by rw [length_levels]; exact Nat.le_of_not_lt hid)]
    rfl

/-! ## The order and the exit points -/

theorem comesBefore_iff {levels : List Nat} {first second : Nat} :
    comesBefore levels first second = true ↔ levelIn levels first < levelIn levels second ∨
      levelIn levels first = levelIn levels second ∧ first ≤ second := by
  simp [comesBefore]

/-- The flows sorted by level, and by id on each level, are the levels one after the other. -/
theorem mergeSort_comesBefore (hacyclic : refs.Acyclic) (hrange : refs.InRange) :
    (List.range refs.length).mergeSort (comesBefore (levels refs)) = order refs := by
  -- Both list all flows and ascend in an order that no two flows share a place in.
  refine List.Perm.eq_of_pairwise (fun first second _ _ h h' => ?_)
    (List.pairwise_mergeSort (fun first second third h h' => ?_) (fun first second => ?_) _)
    ((order_pairwise refs).imp fun h => ?_)
    ((List.mergeSort_perm _ _).trans (order_perm hacyclic hrange).symm)
  · rw [comesBefore_iff] at h h'
    omega
  · rw [comesBefore_iff] at h h' ⊢
    omega
  · rw [Bool.or_eq_true, comesBefore_iff, comesBefore_iff]
    omega
  · rw [comesBefore_iff]
    exact h.imp_right fun h => ⟨h.1, Nat.le_of_lt h.2⟩

theorem mem_flatten_iff {id : Nat} : id ∈ refs.flatten ↔ ∃ reader, refs.Reads reader id := by
  rw [List.mem_flatten]
  constructor
  · rintro ⟨ids, hids, hid⟩
    obtain ⟨reader, hreader⟩ := List.mem_iff_getElem?.mp hids
    exact ⟨reader, by simpa [Reads, of, hreader] using hid⟩
  · rintro ⟨reader, hread⟩
    have hreader := List.getElem?_eq_getElem (lt_length_of_reads hread)
    exact ⟨_, List.mem_of_getElem? hreader, by simpa [Reads, of, hreader] using hread⟩

/-- The flows without readers are those outside the set of all that are read. -/
theorem exitPoints_eq (refs : References) :
    refs.exitPoints = (List.range refs.length).filter fun id => id ∉ refs.flatten := by
  refine List.filter_congr fun id _ => ?_
  rw [Bool.eq_iff_iff, List.isEmpty_iff, List.eq_nil_iff_forall_not_mem, decide_eq_true_iff,
    mem_flatten_iff, not_exists]
  exact forall_congr' fun reader => not_congr mem_readers

/-- The recursion, the sort and the set find the analysis. -/
theorem analysis_eq_visited (hacyclic : refs.Acyclic) (hrange : refs.InRange) :
    refs.analysis = visitedAnalysis hacyclic hrange := by
  rw [analysis, visitedAnalysis, visitedLevels_eq, mergeSort_comesBefore hacyclic hrange,
    exitPoints_eq]

end LayerFlow.References
