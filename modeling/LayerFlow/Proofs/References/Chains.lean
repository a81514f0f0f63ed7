/-
LayerFlow.Proofs.References.Chains

Chains of references.  A chain below a flow starts with a flow that it reads and goes on from each
flow to one that this flow reads.  Its length is bounded by the level, because levels fall along
every reference; and following the highest flow that is read, level by level, gives a chain that
is as long as the level says.

Main statements: `isGreatest_level`, the level of a flow is the length of its longest chain, and
`not_transGen_of_level_eq`, flows of one level are independent.
-/
import LayerFlow.Proofs.References.Order
import Mathlib.Order.Bounds.Basic

namespace LayerFlow.References

variable {refs : References}

/-! ## Chains below a flow -/

/-- The lengths of the chains below a node, along the edges of a relation. -/
def chainLengths (reads : Nat → Nat → Prop) (id : Nat) : Set Nat :=
  {n | ∃ below : List Nat, (id :: below).IsChain reads ∧ below.length = n}

theorem zero_mem_chainLengths (reads : Nat → Nat → Prop) (id : Nat) :
    0 ∈ chainLengths reads id :=
  ⟨[], .singleton id, rfl⟩

/-- A chain that is not empty is a flow that is read and a chain below that one. -/
theorem succ_mem_chainLengths {reads : Nat → Nat → Prop} {id n : Nat} :
    n + 1 ∈ chainLengths reads id ↔ ∃ source, reads id source ∧ n ∈ chainLengths reads source := by
  constructor
  · rintro ⟨below, hchain, hlength⟩
    obtain ⟨source, rest, rfl⟩ := List.exists_cons_of_length_eq_add_one hlength
    obtain ⟨hread, hrest⟩ := List.isChain_cons_cons.mp hchain
    exact ⟨source, hread, rest, hrest, by simpa using hlength⟩
  · rintro ⟨source, hread, rest, hrest, rfl⟩
    exact ⟨source :: rest, List.isChain_cons_cons.mpr ⟨hread, hrest⟩, rfl⟩

/-! ## Levels and chains -/

/-- The largest number of a list stands in it, unless it is zero. -/
theorem largest_mem {ns : List Nat} (h : largest ns ≠ 0) : largest ns ∈ ns := by
  induction ns with
  | nil => exact absurd rfl h
  | cons n ns ih =>
    rcases max_choice n (largest ns) with hmax | hmax
    · rw [largest, List.foldr_cons]
      exact List.mem_cons.mpr (.inl hmax)
    · have hcons : largest (n :: ns) = largest ns := hmax
      rw [hcons] at h ⊢
      exact List.mem_cons_of_mem _ (ih h)

/-- A flow above level zero reads one that lies just below it. -/
theorem exists_reads_of_level_eq_succ (hacyclic : refs.Acyclic) (hrange : refs.InRange)
    {id n : Nat} (h : refs.level id = n + 1) :
    ∃ source, refs.Reads id source ∧ refs.level source = n := by
  have hlevel := level_eq hacyclic hrange id
  have hne : largest ((refs.of id).map fun source => refs.level source + 1) ≠ 0 := by omega
  have hmem := largest_mem hne
  obtain ⟨source, hread, heq⟩ := List.mem_map.mp hmem
  exact ⟨source, hread, by omega⟩

/-- On level zero are exactly the flows that read no other flow. -/
theorem level_eq_zero_iff (hacyclic : refs.Acyclic) (hrange : refs.InRange) {id : Nat} :
    refs.level id = 0 ↔ ∀ source, ¬ refs.Reads id source := by
  constructor
  · intro h source hread
    have := level_lt_of_reads hacyclic hrange hread
    omega
  · intro h
    rcases hlevel : refs.level id with _ | n
    · rfl
    · obtain ⟨source, hread, -⟩ := exists_reads_of_level_eq_succ hacyclic hrange hlevel
      exact absurd hread (h source)

theorem level_mem_chainLengths (hacyclic : refs.Acyclic) (hrange : refs.InRange) (id : Nat) :
    refs.level id ∈ chainLengths refs.Reads id := by
  generalize hlevel : refs.level id = n
  induction n generalizing id with
  | zero => exact zero_mem_chainLengths _ id
  | succ n ih =>
    -- The chain goes on from the highest flow that is read.
    obtain ⟨source, hread, hsource⟩ := exists_reads_of_level_eq_succ hacyclic hrange hlevel
    exact succ_mem_chainLengths.mpr ⟨source, hread, ih source hsource⟩

theorem le_level_of_mem_chainLengths (hacyclic : refs.Acyclic) (hrange : refs.InRange)
    {id n : Nat} (h : n ∈ chainLengths refs.Reads id) : n ≤ refs.level id := by
  induction n generalizing id with
  | zero => exact Nat.zero_le _
  | succ n ih =>
    obtain ⟨source, hread, hbelow⟩ := succ_mem_chainLengths.mp h
    have hless := level_lt_of_reads hacyclic hrange hread
    have hle := ih hbelow
    omega

/-- The level of a flow is the length of the longest chain of references below it. -/
theorem isGreatest_level (hacyclic : refs.Acyclic) (hrange : refs.InRange) (id : Nat) :
    IsGreatest (chainLengths refs.Reads id) (refs.level id) :=
  ⟨level_mem_chainLengths hacyclic hrange id,
    fun _ h => le_level_of_mem_chainLengths hacyclic hrange h⟩

/-- A flow that depends on another one, directly or through others, lies on another level. -/
theorem not_transGen_of_level_eq (hacyclic : refs.Acyclic) (hrange : refs.InRange)
    {first second : Nat} (h : refs.level first = refs.level second) :
    ¬ Relation.TransGen refs.Reads first second := by
  intro hchain
  have hranked : refs.Ranked refs.level := fun _ _ => level_lt_of_reads hacyclic hrange
  have := hranked.lt_of_transGen hchain
  omega

/-! ## Entry and exit points -/

theorem mem_entryPoints {id : Nat} :
    id ∈ refs.entryPoints ↔ id < refs.length ∧ ∀ source, ¬ refs.Reads id source := by
  rw [entryPoints, List.mem_filter, List.mem_range, List.isEmpty_iff,
    List.eq_nil_iff_forall_not_mem]
  rfl

theorem mem_exitPoints {id : Nat} :
    id ∈ refs.exitPoints ↔ id < refs.length ∧ refs.readers id = [] := by
  rw [exitPoints, List.mem_filter, List.mem_range, List.isEmpty_iff]

end LayerFlow.References
