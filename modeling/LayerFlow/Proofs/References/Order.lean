/-
LayerFlow.Proofs.References.Order

The order of evaluation of references without cycles.  As many rounds of lifting as there are
flows settle the levels, because the level of a flow settles one round after those of the flows
it reads; a settled level lies above the levels of all flows that are read.

Main statements: `level_lt_of_reads`, `order_perm`, the order lists every flow once, and
`mem_done_of_reads`, every flow comes after the flows it reads.
-/
import LayerFlow.Proofs.References.Acyclic
import Mathlib.Data.List.Flatten
import Mathlib.Data.List.Nodup

namespace LayerFlow.References

variable {refs : References}

/-! ## Rounds of lifting -/

theorem largest_le {ns : List Nat} {bound : Nat} (h : ∀ n ∈ ns, n ≤ bound) :
    largest ns ≤ bound := by
  induction ns with
  | nil => exact Nat.zero_le _
  | cons n ns ih =>
    have hn := h n List.mem_cons_self
    have hns := ih fun m hm => h m (List.mem_cons_of_mem _ hm)
    exact max_le hn hns

theorem le_largest {ns : List Nat} {n : Nat} (h : n ∈ ns) : n ≤ largest ns := by
  induction ns with
  | nil => cases h
  | cons first ns ih =>
    rcases List.mem_cons.mp h with rfl | h
    · exact le_max_left _ _
    · exact (ih h).trans (le_max_right _ _)

/-- The level that a table of levels has for a flow; zero for flows that do not exist. -/
def levelIn (levels : List Nat) (id : Nat) : Nat := levels[id]?.getD 0

theorem levelIn_of_length_le {levels : List Nat} {id : Nat} (h : levels.length ≤ id) :
    levelIn levels id = 0 := by
  simp [levelIn, List.getElem?_eq_none h]

@[simp] theorem length_lift (levels : List Nat) : (lift refs levels).length = refs.length := by
  simp [lift]

/-- After a round of lifting a flow lies one above the highest flow that it reads. -/
theorem levelIn_lift (levels : List Nat) (id : Nat) :
    levelIn (lift refs levels) id =
      largest ((refs.of id).map fun source => levelIn levels source + 1) := by
  by_cases h : id < refs.length
  · simp [levelIn, lift, of, List.getElem?_eq_getElem h]
  · have hof : refs.of id = [] := by simp [of, List.getElem?_eq_none (Nat.le_of_not_lt h)]
    rw [hof, levelIn_of_length_le (by simp; omega)]
    rfl

theorem length_liftTimes (rounds : Nat) {levels : List Nat} (h : levels.length = refs.length) :
    (liftTimes refs rounds levels).length = refs.length := by
  induction rounds generalizing levels with
  | zero => exact h
  | succ rounds ih => exact ih (length_lift levels)

/-- The last round can be told from the ones before it. -/
theorem liftTimes_succ (rounds : Nat) (levels : List Nat) :
    liftTimes refs (rounds + 1) levels = lift refs (liftTimes refs rounds levels) := by
  induction rounds generalizing levels with
  | zero => rfl
  | succ rounds ih => exact ih (lift refs levels)

/-- A level has settled once there were more rounds than the rank of the flow. -/
theorem levelIn_liftTimes_succ {rank : Nat → Nat} (hrank : refs.Ranked rank) {rounds id : Nat}
    (h : rank id < rounds) (levels : List Nat) :
    levelIn (liftTimes refs (rounds + 1) levels) id =
      levelIn (liftTimes refs rounds levels) id := by
  induction rounds generalizing id with
  | zero => omega
  | succ rounds ih =>
    rw [liftTimes_succ (rounds + 1), liftTimes_succ rounds, levelIn_lift, levelIn_lift]
    -- What the flow reads has a lower rank, so it settled a round earlier.
    congr 1
    apply List.map_congr_left
    intro source hsource
    have hless : rank source < rank id := hrank id source hsource
    rw [← liftTimes_succ, ih (by omega)]

theorem levelIn_liftTimes_le {rank : Nat → Nat} (hrank : refs.Ranked rank) (rounds id : Nat) :
    levelIn (liftTimes refs rounds (List.replicate refs.length 0)) id ≤ rank id := by
  induction rounds generalizing id with
  | zero => simp [liftTimes, levelIn, List.getElem?_replicate]; split <;> simp
  | succ rounds ih =>
    rw [liftTimes_succ, levelIn_lift]
    apply largest_le
    intro n hn
    obtain ⟨source, hsource, rfl⟩ := List.mem_map.mp hn
    have hless : rank source < rank id := hrank id source hsource
    have := ih source
    omega

/-! ## Levels -/

/-- The level of a flow. -/
def level (refs : References) (id : Nat) : Nat := levelIn (levels refs) id

@[simp] theorem length_levels : (levels refs).length = refs.length :=
  length_liftTimes _ (by simp)

theorem getElem?_levels {id : Nat} (h : id < refs.length) :
    (levels refs)[id]? = some (refs.level id) := by
  have hlt : id < (levels refs).length := by simpa using h
  simp [level, levelIn, List.getElem?_eq_getElem hlt]

/-- Every flow lies one above the highest flow that it reads. -/
theorem level_eq (hacyclic : refs.Acyclic) (hrange : refs.InRange) (id : Nat) :
    refs.level id = largest ((refs.of id).map fun source => refs.level source + 1) := by
  by_cases h : id < refs.length
  -- Ranks stay below the number of flows, so the last round changes nothing.
  · have hrank : refs.Ranked refs.height := fun _ _ => height_lt_of_reads hacyclic hrange
    have hsettled := levelIn_liftTimes_succ hrank (height_lt_length hacyclic h)
      (List.replicate refs.length 0)
    rw [liftTimes_succ, levelIn_lift] at hsettled
    exact hsettled.symm
  · have hof : refs.of id = [] := by simp [of, List.getElem?_eq_none (Nat.le_of_not_lt h)]
    rw [hof, level, levelIn_of_length_le (by simp; omega)]
    rfl

/-- A flow lies above every flow that it reads. -/
theorem level_lt_of_reads (hacyclic : refs.Acyclic) (hrange : refs.InRange) {reader source : Nat}
    (h : refs.Reads reader source) : refs.level source < refs.level reader := by
  rw [level_eq hacyclic hrange reader]
  exact le_largest (List.mem_map.mpr ⟨source, h, rfl⟩)

theorem level_lt_length (hacyclic : refs.Acyclic) (hrange : refs.InRange) {id : Nat}
    (h : id < refs.length) : refs.level id < refs.length := by
  have hrank : refs.Ranked refs.height := fun _ _ => height_lt_of_reads hacyclic hrange
  exact (levelIn_liftTimes_le hrank _ id).trans_lt (height_lt_length hacyclic h)

/-! ## The order of evaluation -/

/-- The flows of a level, ascending. -/
def onLevel (refs : References) (n : Nat) : List Nat :=
  (List.range refs.length).filter fun id => refs.level id = n

theorem mem_onLevel {n id : Nat} : id ∈ refs.onLevel n ↔ id < refs.length ∧ refs.level id = n := by
  simp [onLevel]

/-- The groups of the order are the levels. -/
theorem groupByLevel_levels :
    groupByLevel (levels refs) = (List.range refs.length).map refs.onLevel := by
  unfold groupByLevel onLevel
  rw [length_levels]
  apply List.map_congr_left
  intro n _
  apply List.filter_congr
  intro id hid
  rw [getElem?_levels (List.mem_range.mp hid)]
  simp

theorem mem_order (hacyclic : refs.Acyclic) (hrange : refs.InRange) {id : Nat} :
    id ∈ order refs ↔ id < refs.length := by
  rw [order, groupByLevel_levels]
  simp only [List.mem_flatten, List.mem_map, List.mem_range]
  constructor
  · rintro ⟨_, ⟨n, -, rfl⟩, hid⟩
    exact (mem_onLevel.mp hid).1
  · intro h
    exact ⟨_, ⟨_, level_lt_length hacyclic hrange h, rfl⟩, mem_onLevel.mpr ⟨h, rfl⟩⟩

/-- The order goes by level, and by id on each level. -/
theorem order_pairwise (refs : References) : (order refs).Pairwise fun first second =>
    refs.level first < refs.level second ∨
      refs.level first = refs.level second ∧ first < second := by
  rw [order, groupByLevel_levels, List.pairwise_flatten]
  constructor
  · intro ids hids
    obtain ⟨n, -, rfl⟩ := List.mem_map.mp hids
    -- Within a level the flows ascend.
    refine List.Pairwise.imp_of_mem ?_ (List.Pairwise.filter _ List.pairwise_lt_range)
    intro first second hfirst hsecond hlt
    have hfirst := mem_onLevel.mp hfirst
    have hsecond := mem_onLevel.mp hsecond
    exact .inr ⟨hfirst.2.trans hsecond.2.symm, hlt⟩
  -- From level to level the levels ascend.
  · rw [List.pairwise_map]
    refine List.Pairwise.imp ?_ List.pairwise_lt_range
    intro n m hlt first hfirst second hsecond
    rw [mem_onLevel] at hfirst hsecond
    exact .inl (by omega)

theorem order_nodup (refs : References) : (order refs).Nodup := by
  refine List.Pairwise.imp ?_ (order_pairwise refs)
  rintro first second h rfl
  omega

/-- The order lists every flow once. -/
theorem order_perm (hacyclic : refs.Acyclic) (hrange : refs.InRange) :
    (order refs).Perm (List.range refs.length) := by
  rw [List.perm_ext_iff_of_nodup (order_nodup refs) List.nodup_range]
  intro id
  rw [mem_order hacyclic hrange, List.mem_range]

/-- Every flow comes after the flows that it reads. -/
theorem mem_done_of_reads (hacyclic : refs.Acyclic) (hrange : refs.InRange)
    {done rest : List Nat} {id source : Nat} (h : order refs = done ++ id :: rest)
    (hread : refs.Reads id source) : source ∈ done := by
  have hmem : source ∈ done ++ id :: rest := by
    rw [← h, mem_order hacyclic hrange]
    exact hrange _ _ hread
  have hlevel := level_lt_of_reads hacyclic hrange hread
  have hsorted := order_pairwise refs
  rw [h, List.pairwise_append, List.pairwise_cons] at hsorted
  rcases List.mem_append.mp hmem with hdone | hrest
  · exact hdone
  · rcases List.mem_cons.mp hrest with rfl | hrest
    · omega
    · -- Whatever comes later lies no lower.
      have := hsorted.2.1.1 source hrest
      omega

/-- Against the order, every flow comes after the flows that read it. -/
theorem mem_done_of_reads_reverse (hacyclic : refs.Acyclic) (hrange : refs.InRange)
    {done rest : List Nat} {id reader : Nat} (h : (order refs).reverse = done ++ id :: rest)
    (hread : refs.Reads reader id) : reader ∈ done := by
  have hreader : reader ∈ order refs :=
    (mem_order hacyclic hrange).mpr (lt_length_of_reads hread)
  obtain ⟨before, after, hsplit⟩ := List.append_of_mem hreader
  have hid : id ∈ before := mem_done_of_reads hacyclic hrange hsplit hread
  have hback : order refs = rest.reverse ++ id :: done.reverse := by
    rw [← List.reverse_reverse (order refs), h]
    simp
  -- The flow stands once in the order, so the reader stands on its far side.
  have hnodup := order_nodup refs
  have hafter : reader ∈ rest.reverse ++ id :: done.reverse := hback ▸ hreader
  rcases List.mem_append.mp hafter with hrest | hdone
  · have hsorted := order_pairwise refs
    rw [hback, List.pairwise_append] at hsorted
    have hle := hsorted.2.2 reader hrest id List.mem_cons_self
    have hlevel := level_lt_of_reads hacyclic hrange hread
    omega
  · rcases List.mem_cons.mp hdone with rfl | hdone
    · exact absurd (Relation.TransGen.single hread) (hacyclic _)
    · exact List.mem_reverse.mp hdone

/-! ## Readers -/

theorem mem_readers {id reader : Nat} : reader ∈ refs.readers id ↔ refs.Reads reader id := by
  simp only [readers, List.mem_filter, List.mem_range, decide_eq_true_eq]
  exact ⟨fun h => h.2, fun h => ⟨lt_length_of_reads h, h⟩⟩

end LayerFlow.References
