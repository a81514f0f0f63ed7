/-
LayerFlow.Proofs.Fusion.Selection

The selection matrix of a fusion as a linear map.  A matrix that picks one place for each row takes
a vector to its entries at these places; its transpose puts the entries back and leaves zeros
elsewhere, if no place is picked twice.  The places of a plan are those of the channels in the
padded stack, so the contraction drops the padding, whatever stands there, and its gradient hands
every source its own part again, with zeros for the padding.

Main statement: `FusionPlan.weights_undo_padding`.
-/
import LayerFlow.Proofs.Fusion.Locations
import Mathlib.Data.List.SplitLengths
import Mathlib.Data.Matrix.Mul
import Mathlib.Data.Rat.Cast.Defs
import Mathlib.Tactic.NormNum

namespace LayerFlow

open Matrix Traversal

/-! ## Matrices that select -/

section

variable {m n : Nat} {place : Fin m → Fin n}

/-- The matrix that picks one place for each row. -/
def selection (place : Fin m → Fin n) : Matrix (Fin m) (Fin n) ℤ :=
  Matrix.of fun row column => if place row = column then 1 else 0

theorem selection_apply (row : Fin m) (column : Fin n) :
    selection place row column = if place row = column then 1 else 0 := rfl

theorem selection_eq_one_iff {row : Fin m} {column : Fin n} :
    selection place row column = 1 ↔ place row = column := by
  rw [selection_apply]
  split <;> simp_all

theorem selection_mulVec (v : Fin n → ℤ) (row : Fin m) :
    (selection place *ᵥ v) row = v (place row) := by
  simp [mulVec, dotProduct, selection_apply]

/-- An entry goes back to the place that it was picked from. -/
theorem transpose_selection_mulVec (hplace : place.Injective) (g : Fin m → ℤ) (row : Fin m) :
    ((selection place)ᵀ *ᵥ g) (place row) = g row := by
  simp [mulVec, dotProduct, selection_apply, hplace.eq_iff]

theorem transpose_selection_mulVec_of_ne {column : Fin n} (g : Fin m → ℤ)
    (h : ∀ row, place row ≠ column) : ((selection place)ᵀ *ᵥ g) column = 0 := by
  simp [mulVec, dotProduct, selection_apply, h]

theorem selection_mul_transpose (hplace : place.Injective) :
    selection place * (selection place)ᵀ = 1 := by
  ext row row'
  simp [mul_apply, selection_apply, one_apply, hplace.eq_iff, eq_comm]

end

/-! ## Rows side by side -/

/-- Rows of one width side by side: an entry is found by its row and its column. -/
theorem getElem?_flatten_of_length {α : Type} {rows : List (List α)} {width column : Nat}
    (hrows : ∀ row ∈ rows, row.length = width) (hcolumn : column < width) (row : Nat) :
    rows.flatten[row * width + column]? = rows[row]?.bind fun found => found[column]? := by
  induction rows generalizing row with
  | nil => simp
  | cons first rest ih =>
    rw [List.forall_mem_cons] at hrows
    obtain ⟨hfirst, hrest⟩ := hrows
    rw [List.flatten_cons]
    -- Every row before the one that is sought takes one width.
    cases row with
    | zero =>
      rw [Nat.zero_mul, Nat.zero_add, List.getElem?_append_left (hfirst ▸ hcolumn)]
      rfl
    | succ row =>
      rw [List.getElem?_append_right (by rw [hfirst, Nat.succ_mul]; omega), hfirst,
        show (row + 1) * width + column - width = row * width + column by
          rw [Nat.succ_mul]; omega, ih hrest, List.getElem?_cons_succ]

/-- Lists side by side, split where each of them ends, are those lists. -/
theorem splitLengths_flatten {α : Type} (parts : List (List α)) :
    (parts.map List.length).splitLengths parts.flatten = parts := by
  induction parts with
  | nil => rfl
  | cons part rest ih =>
    rw [List.map_cons, List.splitLengths_cons, List.flatten_cons, List.take_left, List.drop_left,
      ih]

/-! ## Values -/

/-- The number that a finite single-precision number stands for. -/
def Binary32.value (x : Binary32) : ℚ :=
  (if x.negative then -1 else 1) * x.significand * 2 ^ x.exponent

theorem Binary32.value_zero : Binary32.zero.value = 0 := by
  have hsignificand : Binary32.zero.significand = 0 := by decide
  rw [value, hsignificand, Nat.cast_zero, mul_zero, zero_mul]

theorem Binary32.value_one : Binary32.one.value = 1 := by
  have hsign : Binary32.one.negative = false := by decide
  have hsignificand : Binary32.one.significand = 2 ^ 23 := by decide
  have hexponent : Binary32.one.exponent = -23 := by decide
  rw [value, hsign, hsignificand, hexponent]
  norm_num

/-- The numbers are the entries of a matrix, row by row. -/
structure IsRowMajor {m n : Nat} (weights : List Binary32) (W : Matrix (Fin m) (Fin n) ℤ) :
    Prop where
  length : weights.length = m * n
  entry : ∀ (row : Fin m) (column : Fin n),
    (weights[(row : Nat) * n + column]?).map Binary32.value = some (W row column : ℚ)

/-! ## Stacks -/

/-- A source followed by a filler up to the next multiple of the alignment. -/
structure PaddedTo (alignment : Nat) (source part : List ℤ) : Prop where
  filled : source <+: part
  length : part.length = paddedCount alignment source.length

section

variable {alignment : Nat} {sources parts : List (List ℤ)}

theorem length_stack (h : List.Forall₂ (PaddedTo alignment) sources parts) :
    parts.map List.length = (sources.map List.length).map (paddedCount alignment) := by
  induction h with
  | nil => rfl
  | cons hfirst hrest ih => rw [List.map_cons, List.map_cons, List.map_cons, ih, hfirst.length]

/-- The channels of padded sources stand at their places in the stack. -/
theorem map_places_stack (h : List.Forall₂ (PaddedTo alignment) sources parts)
    (before : List ℤ) :
    (places alignment before.length (sources.map List.length)).map
        (fun place => (before ++ parts.flatten)[place]?) =
      sources.flatten.map some := by
  induction h generalizing before with
  | nil => rfl
  | @cons source part sources parts hfirst hrest ih =>
    obtain ⟨filler, rfl⟩ := hfirst.filled
    have hlength := hfirst.length
    rw [List.length_append] at hlength
    rw [List.map_cons, places, List.map_append, List.flatten_cons, List.flatten_cons,
      List.map_append]
    congr 1
    -- The source itself begins where what is before it ends.
    · apply List.ext_getElem
      · simp
      · intro channel hleft hright
        rw [List.length_map] at hright
        rw [List.getElem_map, List.getElem_map, List.getElem_range', Nat.one_mul,
          List.getElem?_append_right (by omega), Nat.add_sub_cancel_left, List.append_assoc,
          List.getElem?_append_left hright, List.getElem?_eq_getElem]
    -- The other ones follow behind its filler.
    · have hnext := ih (before ++ (source ++ filler))
      rwa [List.length_append, List.length_append, hlength, List.append_assoc] at hnext

/-- A source followed by zeros up to the next multiple of the alignment. -/
def zeroPadded (alignment : Nat) (source : List ℤ) : List ℤ :=
  source ++ List.replicate (paddedCount alignment source.length - source.length) 0

theorem paddedTo_zeroPadded (halign : 0 < alignment) (source : List ℤ) :
    PaddedTo alignment source (zeroPadded alignment source) := by
  refine ⟨List.prefix_append _ _, ?_⟩
  rw [zeroPadded, List.length_append, List.length_replicate]
  exact Nat.add_sub_cancel' (le_paddedCount halign _)

theorem paddedTo_map_zeroPadded (halign : 0 < alignment) (sources : List (List ℤ)) :
    List.Forall₂ (PaddedTo alignment) sources (sources.map (zeroPadded alignment)) := by
  rw [List.forall₂_map_right_iff]
  exact List.forall₂_same.mpr fun source _ => paddedTo_zeroPadded halign source

/-- If the padding is zero, so is the stack at every slot that no channel has. -/
theorem getElem?_stack_of_not_mem (halign : 0 < alignment) (sources : List (List ℤ))
    (before : List ℤ) {slot : Nat} (hbefore : before.length ≤ slot)
    (hslot : slot < (before ++ (sources.map (zeroPadded alignment)).flatten).length)
    (hnot : slot ∉ places alignment before.length (sources.map List.length)) :
    (before ++ (sources.map (zeroPadded alignment)).flatten)[slot]? = some 0 := by
  induction sources generalizing before with
  | nil =>
    rw [List.map_nil, List.flatten_nil, List.append_nil] at hslot
    omega
  | cons source sources ih =>
    have hpadded := le_paddedCount halign source.length
    have hlength := (paddedTo_zeroPadded halign source).length
    rw [List.map_cons, places, List.mem_append, List.mem_range'_1, not_or] at hnot
    by_cases hpart : slot < before.length + paddedCount alignment source.length
    -- The slot is not in the source, so it is in the filler behind it.
    · rw [List.map_cons, List.flatten_cons, List.getElem?_append_right hbefore,
        List.getElem?_append_left (by omega), zeroPadded,
        List.getElem?_append_right (by omega), List.getElem?_replicate, if_pos (by omega)]
    · have hnext := ih (before ++ zeroPadded alignment source)
      rw [List.length_append, hlength, List.append_assoc, ← List.flatten_cons,
        ← List.map_cons] at hnext
      exact hnext (by omega) hslot hnot.2

end

/-! ## The matrix of a plan -/

namespace FusionPlan

variable {plan : FusionPlan} {counts : List Nat} {alignment : Nat}

@[simp] theorem length_selector (width place : Nat) : (selector width place).length = width := by
  rw [selector, List.length_map, List.length_range]

/-- A one in a row of zeros picks its place. -/
theorem set_zeros (width place : Nat) :
    (List.replicate width Binary32.zero).set place .one = selector width place := by
  apply List.ext_getElem
  · simp
  · intro column hleft hright
    simp only [List.getElem_set, selector, List.getElem_map, List.getElem_range,
      List.getElem_replicate, eq_comm (a := place)]

/-- The rows that are not filled yet hold zeros, the ones before them are as they were; the fill
makes of each row the one that picks its place. -/
theorem toList_fillOnes {width row : Nat} {places : List Nat}
    (hinside : ∀ place ∈ places, place < width) {done : List Binary32}
    (hdone : done.length = row * width) {entries : Array Binary32}
    (hentries : entries.toList = done ++ List.replicate (places.length * width) .zero) :
    (fillOnes width row places entries).toList = done ++ (places.map (selector width)).flatten := by
  induction places generalizing row done entries with
  | nil =>
    rw [List.length_nil, Nat.zero_mul] at hentries
    exact hentries
  | cons place places ih =>
    rw [List.forall_mem_cons] at hinside
    obtain ⟨hplace, hrest⟩ := hinside
    -- The index of the next one lies behind the rows that are done, inside the first row of zeros.
    have hrow : (entries.setIfInBounds (row * width + place) .one).toList =
        (done ++ selector width place) ++ List.replicate (places.length * width) .zero := by
      rw [Array.toList_setIfInBounds, hentries, List.length_cons, Nat.succ_mul, Nat.add_comm,
        List.replicate_add, ← hdone, List.set_append_right _ _ (by omega), Nat.add_sub_cancel_left,
        List.set_append_left _ _ (by simpa using hplace), set_zeros, List.append_assoc]
    have hlength : (done ++ selector width place).length = (row + 1) * width := by
      rw [List.length_append, hdone, length_selector, Nat.succ_mul]
    rw [fillOnes, ih hrest hlength hrow, List.map_cons, List.flatten_cons, List.append_assoc]

/-- Filled from the first row on, a matrix of zeros has the rows that pick the places. -/
theorem toList_fillOnes_zeros (hinside : ∀ place ∈ plan.locations, place < plan.paddedTotal) :
    (fillOnes plan.paddedTotal 0 plan.locations
      (Array.replicate (plan.logicalTotal * plan.paddedTotal) .zero)).toList =
        plan.weightRows.flatten := by
  have hzeros : (Array.replicate (plan.logicalTotal * plan.paddedTotal) Binary32.zero).toList =
      [] ++ List.replicate (plan.locations.length * plan.paddedTotal) .zero :=
    Array.toList_replicate
  have hdone : ([] : List Binary32).length = 0 * plan.paddedTotal := (Nat.zero_mul _).symm
  exact toList_fillOnes hinside hdone hzeros

/-- Where the channels of a plan lie in the stack. -/
def place (plan : FusionPlan) (hinside : ∀ place ∈ plan.locations, place < plan.paddedTotal)
    (channel : Fin plan.logicalTotal) : Fin plan.paddedTotal :=
  ⟨plan.locations.get channel, hinside _ (List.get_mem _ _)⟩

theorem place_injective (hlaid : plan.LaidOut alignment counts) :
    (plan.place hlaid.inside).Injective := by
  intro channel channel' h
  have hnodup : plan.locations.Nodup := hlaid.increasing.imp Nat.ne_of_lt
  have hplaces := congrArg Fin.val h
  exact Fin.ext ((hnodup.getElem_inj_iff).mp hplaces)

theorem length_of_mem_weightRows {row : List Binary32} (hrow : row ∈ plan.weightRows) :
    row.length = plan.paddedTotal := by
  obtain ⟨place, -, rfl⟩ := List.mem_map.mp hrow
  exact length_selector plan.paddedTotal place

theorem length_weightRows (plan : FusionPlan) :
    plan.weightRows.flatten.length = plan.logicalTotal * plan.paddedTotal := by
  rw [List.length_flatten, List.map_congr_left fun _ => length_of_mem_weightRows, List.map_const',
    List.sum_replicate_nat, weightRows, List.length_map, logicalTotal]

theorem isRowMajor_weightRows (hlaid : plan.LaidOut alignment counts) :
    IsRowMajor plan.weightRows.flatten (selection (plan.place hlaid.inside)) := by
  refine ⟨length_weightRows plan, fun row column => ?_⟩
  have hrow : plan.weightRows[row.val]? =
      some (selector plan.paddedTotal (plan.place hlaid.inside row)) := by
    rw [weightRows, List.getElem?_map, List.getElem?_eq_getElem row.isLt]
    rfl
  rw [getElem?_flatten_of_length (fun _ => length_of_mem_weightRows) column.isLt, hrow, Option.bind_some, selector,
    List.getElem?_map, List.getElem?_range column.isLt, Option.map_some, Option.map_some,
    selection_apply]
  by_cases hplace : plan.place hlaid.inside row = column
  · rw [if_pos (congrArg Fin.val hplace).symm, if_pos hplace, Binary32.value_one, Int.cast_one]
  · have hne : column.val ≠ (plan.place hlaid.inside row).val :=
      fun h => hplace (Fin.ext h.symm)
    rw [if_neg hne, if_neg hplace, Binary32.value_zero, Int.cast_zero]

/-- What the matrix makes of a stack are the entries at the places of the channels. -/
theorem map_ofFn_selection (hlaid : plan.LaidOut alignment counts)
    (stack : Fin plan.paddedTotal → ℤ) :
    (List.ofFn (selection (plan.place hlaid.inside) *ᵥ stack)).map some =
      plan.locations.map fun slot => (List.ofFn stack)[slot]? := by
  apply List.ext_getElem
  · simp [logicalTotal]
  · intro row hleft hright
    rw [List.length_map] at hright
    have hslot := hlaid.inside _ (List.getElem_mem hright)
    rw [List.getElem_map, List.getElem_ofFn, selection_mulVec, List.getElem_map,
      List.getElem?_ofFn, dif_pos hslot]
    rfl

/-- The matrix drops the padding. -/
theorem ofFn_selection_mulVec (hlaid : plan.LaidOut alignment counts)
    (hplaces : plan.locations = places alignment 0 counts) {sources parts : List (List ℤ)}
    (hcounts : sources.map List.length = counts)
    (hparts : List.Forall₂ (PaddedTo alignment) sources parts)
    (stack : Fin plan.paddedTotal → ℤ) (hstack : List.ofFn stack = parts.flatten) :
    List.ofFn (selection (plan.place hlaid.inside) *ᵥ stack) = sources.flatten := by
  have hselected := map_ofFn_selection hlaid stack
  have hchannels := map_places_stack hparts []
  rw [hcounts, List.length_nil, List.nil_append] at hchannels
  rw [hstack, hplaces, hchannels] at hselected
  exact List.map_injective_iff.mpr (Option.some_injective ℤ) hselected

/-- In a stack with zeros for the padding, the entries of the slices stand at the places of the
channels. -/
theorem getElem?_zeroStack_place (hplaces : plan.locations = places alignment 0 counts)
    (halign : 0 < alignment) {slices : List (List ℤ)} (hcounts : slices.map List.length = counts)
    {gradient : Fin plan.logicalTotal → ℤ} (hgradient : List.ofFn gradient = slices.flatten)
    (row : Fin plan.logicalTotal) :
    (slices.map (zeroPadded alignment)).flatten[plan.locations.get row]? =
      some (gradient row) := by
  have hchannels := map_places_stack (paddedTo_map_zeroPadded halign slices) []
  rw [hcounts, List.length_nil, List.nil_append, ← hplaces, ← hgradient] at hchannels
  have hentry := congrArg (fun entries => entries[row.val]?) hchannels
  have hrow : row.val < plan.locations.length := row.isLt
  rw [List.getElem?_map, List.getElem?_eq_getElem hrow, Option.map_some, List.getElem?_map,
    List.getElem?_ofFn, dif_pos row.isLt, Option.map_some, Option.some.injEq] at hentry
  exact hentry

/-- The transpose puts zeros where the padding was. -/
theorem ofFn_transpose_selection_mulVec (hlaid : plan.LaidOut alignment counts)
    (hplaces : plan.locations = places alignment 0 counts) (halign : 0 < alignment)
    {slices : List (List ℤ)} (hcounts : slices.map List.length = counts)
    {gradient : Fin plan.logicalTotal → ℤ} (hgradient : List.ofFn gradient = slices.flatten) :
    List.ofFn ((selection (plan.place hlaid.inside))ᵀ *ᵥ gradient) =
      (slices.map (zeroPadded alignment)).flatten := by
  have hlength : (slices.map (zeroPadded alignment)).flatten.length = plan.paddedTotal := by
    rw [List.length_flatten, length_stack (paddedTo_map_zeroPadded halign slices), hcounts,
      hlaid.paddedTotal]
  apply List.ext_getElem?
  intro slot
  by_cases hslot : slot < plan.paddedTotal
  · rw [List.getElem?_ofFn, dif_pos hslot]
    by_cases hmem : slot ∈ plan.locations
    -- A channel lies here: it gets its own entry back.
    · obtain ⟨row, rfl⟩ := List.mem_iff_get.mp hmem
      rw [getElem?_zeroStack_place hplaces halign hcounts hgradient row]
      exact congrArg some (transpose_selection_mulVec (place_injective hlaid) gradient row)
    -- No channel lies here: no row of the matrix has an entry in this column.
    · have hnone : ∀ row, plan.place hlaid.inside row ≠ ⟨slot, hslot⟩ := by
        intro row hrow
        have hfound : plan.locations.get row = slot := congrArg Fin.val hrow
        exact hmem (hfound ▸ List.get_mem _ _)
      have hzero := getElem?_stack_of_not_mem halign slices [] (Nat.zero_le slot)
        (by rw [List.nil_append, hlength]; exact hslot)
        (by rw [hcounts, List.length_nil, ← hplaces]; exact hmem)
      rw [List.nil_append] at hzero
      rw [transpose_selection_mulVec_of_ne gradient hnone, hzero]
  · rw [List.getElem?_eq_none (by rw [List.length_ofFn]; omega),
      List.getElem?_eq_none (by rw [hlength]; omega)]

/-- A matrix that takes every stack of the sources, whatever fills it up, to the sources side by
side, and whose transpose hands every source its own part of a gradient, with zeros for the
filler. -/
structure UndoesPadding (alignment : Nat) (counts : List Nat) (plan : FusionPlan)
    (W : Matrix (Fin plan.logicalTotal) (Fin plan.paddedTotal) ℤ) : Prop where
  contracts : ∀ sources parts : List (List ℤ), sources.map List.length = counts →
    List.Forall₂ (PaddedTo alignment) sources parts →
      parts.flatten.length = plan.paddedTotal ∧
      ∀ stack : Fin plan.paddedTotal → ℤ, List.ofFn stack = parts.flatten →
        List.ofFn (W *ᵥ stack) = sources.flatten
  gradients : ∀ gradient : Fin plan.logicalTotal → ℤ,
    (counts.map (paddedCount alignment)).splitLengths (List.ofFn (Wᵀ *ᵥ gradient)) =
      (counts.splitLengths (List.ofFn gradient)).map (zeroPadded alignment)
  identity : W * Wᵀ = 1
  entries : ∀ row column, W row column = 0 ∨ W row column = 1
  rows : ∀ row, ∃! column, W row column = 1
  columns : ∀ column row row', W row column = 1 → W row' column = 1 → row = row'

theorem undoesPadding_selection (hlaid : plan.LaidOut alignment counts)
    (hplaces : plan.locations = places alignment 0 counts) (halign : 0 < alignment) :
    plan.UndoesPadding alignment counts (selection (plan.place hlaid.inside)) where
  contracts sources parts hcounts hparts := by
    have hlength : parts.flatten.length = plan.paddedTotal := by
      rw [List.length_flatten, length_stack hparts, hcounts, hlaid.paddedTotal]
    exact ⟨hlength, ofFn_selection_mulVec hlaid hplaces hcounts hparts⟩
  gradients gradient := by
    have hlength : (List.ofFn gradient).length = counts.sum := by
      rw [List.length_ofFn, hlaid.logicalTotal]
    have hcounts := List.map_splitLengths_length (List.ofFn gradient) counts hlength.ge
    have hslices := List.flatten_splitLengths (List.ofFn gradient) counts hlength.le
    have hlengths := length_stack
      (paddedTo_map_zeroPadded halign (counts.splitLengths (List.ofFn gradient)))
    rw [hcounts] at hlengths
    rw [ofFn_transpose_selection_mulVec hlaid hplaces halign hcounts hslices.symm,
      ← hlengths, splitLengths_flatten]
  identity := selection_mul_transpose (place_injective hlaid)
  entries row column := by
    rw [selection_apply]
    split
    · exact .inr rfl
    · exact .inl rfl
  rows row := by
    refine ⟨plan.place hlaid.inside row, selection_eq_one_iff.mpr rfl, fun column h => ?_⟩
    exact (selection_eq_one_iff.mp h).symm
  columns column row row' h h' := by
    rw [selection_eq_one_iff] at h h'
    exact place_injective hlaid (h.trans h'.symm)

/-- The matrix is filled unless its size leaves the range of the machine. -/
theorem weights_eq_ok (hlaid : plan.LaidOut alignment counts)
    (h : plan.weights ≠ .error .overflow) : plan.weights = .ok plan.weightRows.flatten := by
  rcases hsize : Size.mul plan.logicalTotal plan.paddedTotal with e | size
  · obtain rfl := Size.overflowsOnly_check _ e hsize
    exact absurd (bind_eq_error_iff.mpr (.inl hsize)) h
  · obtain ⟨hfits, -⟩ := Size.check_eq_ok_iff.mp hsize
    exact weights_eq_ok_iff.mpr ⟨hfits, (toList_fillOnes_zeros hlaid.inside).symm⟩

/-- The contraction undoes the padding, and its transpose undoes the fusion. -/
theorem weights_undo_padding (counts : List Nat) (alignment : Nat) (hne : counts ≠ [])
    (halign : 0 < alignment)
    (hfits : (withAlignment counts alignment >>= weights) ≠ .error .overflow) :
    ∃ plan weights, withAlignment counts alignment = .ok plan ∧ plan.weights = .ok weights ∧
      ∃ W : Matrix (Fin plan.logicalTotal) (Fin plan.paddedTotal) ℤ,
        IsRowMajor weights W ∧ plan.UndoesPadding alignment counts W := by
  -- Neither the plan nor its matrix can fail but in the arithmetic of sizes.
  rcases hplan : withAlignment counts alignment with e | plan
  · obtain rfl := overflowsOnly_withAlignment hne halign e hplan
    exact absurd (bind_eq_error_iff.mpr (.inl hplan)) hfits
  · have hlaid := laidOut_of_withAlignment hplan
    have hplaces : plan.locations = places alignment 0 counts := by
      rw [eq_of_withAlignment hplan]
    have hweights : plan.weights = .ok plan.weightRows.flatten := by
      refine weights_eq_ok hlaid fun h => hfits ?_
      exact bind_eq_error_iff.mpr (.inr ⟨plan, hplan, h⟩)
    exact ⟨plan, _, rfl, hweights, _, isRowMajor_weightRows hlaid,
      undoesPadding_selection hlaid hplaces halign⟩

/-- Three sources, one without channels; `7`, `8` and `9` are padding. -/
theorem weights_undo_padding_uneven :
    ∃ plan weights, withAlignment [2, 0, 5] 4 = .ok plan ∧ plan.weights = .ok weights ∧
      ∃ W : Matrix (Fin plan.logicalTotal) (Fin plan.paddedTotal) ℤ,
        IsRowMajor weights W ∧ plan.UndoesPadding 4 [2, 0, 5] W ∧
        ∀ stack : Fin plan.paddedTotal → ℤ,
          List.ofFn stack = [1, 2, 7, 8, 3, 4, 5, 6, -1, 9, 9, 9] →
            List.ofFn (W *ᵥ stack) = [1, 2, 3, 4, 5, 6, -1] := by
  obtain ⟨plan, weights, hplan, hweights, W, hrows, hundoes⟩ :=
    weights_undo_padding [2, 0, 5] 4 (by decide) (by decide) (by decide)
  refine ⟨plan, weights, hplan, hweights, W, hrows, hundoes, ?_⟩
  have hparts : List.Forall₂ (PaddedTo 4) [[1, 2], [], [3, 4, 5, 6, -1]]
      [[1, 2, 7, 8], [], [3, 4, 5, 6, -1, 9, 9, 9]] := by
    refine .cons ⟨by decide, by decide⟩ (.cons ⟨by decide, by decide⟩
      (.cons ⟨by decide, by decide⟩ .nil))
  exact (hundoes.contracts _ _ rfl hparts).2

end FusionPlan

end LayerFlow
