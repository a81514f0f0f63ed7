/-
LayerFlow.Proofs.Padding.Positions

How many positions a window takes.  In every mode the positions are the multiples of the stride in
front of some end, and the mode only moves the end.  The closed form of the extent counts them, so
whatever moves the end back or the multiples apart makes the extent smaller.

Main statement: `extent_counts_positions`.
-/
import LayerFlow.Padding
import LayerFlow.Proofs.Traversal
import Mathlib.Data.Int.ConditionallyCompleteOrder
import Mathlib.Data.Int.Interval
import Mathlib.Data.Set.Card

namespace LayerFlow

open Traversal

/-! ## The positions of a window -/

namespace PaddingMode

/-- The numbers `t` for which the window has a `t`-th position: all of it lies on the input, or it
is centred on the input, or it touches the input. -/
def positionSet (mode : PaddingMode) (w : Window) : Set Int :=
  match mode with
  | .validOnly | .custom => {t | 0 ≤ t ∧ t * w.stride + w.kernel ≤ w.input}
  | .sizeSame => {t | 0 ≤ t ∧ t * w.stride < w.input}
  | .sizeFull => {t | 0 ≤ t ∧ t * w.stride < w.input + w.kernel - 1}

/-- The end of the places where the window may begin. -/
def room (mode : PaddingMode) (w : Window) : Int :=
  match mode with
  | .validOnly | .custom => w.input - w.kernel + 1
  | .sizeSame => w.input
  | .sizeFull => w.input + w.kernel - 1

/-- How many multiples of the stride there are in front of that end. -/
def count (mode : PaddingMode) (w : Window) : Int := (mode.room w - 1) / w.stride + 1

/-- How far a window may reach over the border: not at all, by half of it, or all but one place. -/
def reach : PaddingMode → Nat
  | .validOnly | .custom => 0
  | .sizeSame => 1
  | .sizeFull => 2

variable {mode mode' : PaddingMode} {w w' : Window} {t : Int}

theorem mem_positionSet_iff :
    t ∈ mode.positionSet w ↔ 0 ≤ t ∧ t * w.stride < mode.room w := by
  cases mode with
  | validOnly | custom =>
    simp only [positionSet, room, Set.mem_ofPred_eq]
    omega
  | sizeSame | sizeFull => rfl

/-- A window that may reach further has more room. -/
theorem room_le_of_reach (hkernel : 0 < w.kernel) (hreach : mode.reach ≤ mode'.reach) :
    mode.room w ≤ mode'.room w := by
  cases mode <;> cases mode' <;> simp only [reach, room] at * <;> omega

theorem room_mono (hkernel : w'.kernel = w.kernel) (hinput : w.input ≤ w'.input) :
    mode.room w ≤ mode.room w' := by
  cases mode <;> simp only [room] <;> omega

/-- With more room and a shorter stride no position is lost. -/
theorem positionSet_subset (hstride : w'.stride ≤ w.stride) (hroom : mode.room w ≤ mode'.room w') :
    mode.positionSet w ⊆ mode'.positionSet w' := by
  intro t ht
  rw [mem_positionSet_iff] at ht ⊢
  have hshorter : t * w'.stride ≤ t * w.stride := Int.mul_le_mul_of_nonneg_left hstride ht.1
  exact ⟨ht.1, by omega⟩

theorem count_pos (hstride : 0 < w.stride) (hroom : 0 < mode.room w) : 0 < mode.count w :=
  Int.lt_add_one_of_le (Int.ediv_nonneg (by omega) (by omega))

/-- The positions are the numbers from the first one up to their count. -/
theorem positionSet_eq (hstride : 0 < w.stride) :
    mode.positionSet w = Finset.Ico 0 (mode.count w) := by
  ext t
  -- The last position is the quotient of the last place where the window may begin.
  rw [mem_positionSet_iff, Finset.mem_coe, Finset.mem_Ico, count, Int.lt_add_one_iff,
    Int.le_ediv_iff_mul_le hstride, Int.le_sub_one_iff]

theorem ncard_positionSet (hstride : 0 < w.stride) (hroom : 0 < mode.room w) :
    ((mode.positionSet w).ncard : Int) = mode.count w := by
  have hpos : 0 < mode.count w := count_pos hstride hroom
  rw [positionSet_eq hstride, Set.ncard_coe_finset, Int.card_Ico,
    Int.toNat_of_nonneg (by omega), Int.sub_zero]

/-- With more room and a shorter stride there are more positions. -/
theorem count_le_count (hstride : 0 < w'.stride) (hshorter : w'.stride ≤ w.stride)
    (hroom : 0 < mode.room w) (hmore : mode.room w ≤ mode'.room w') :
    mode.count w ≤ mode'.count w' := by
  have hfinite : (mode'.positionSet w').Finite := by
    rw [positionSet_eq hstride]
    exact Finset.finite_toSet _
  -- The closed forms are not compared: both count positions, and none of them is lost.
  have hcard := Set.ncard_le_ncard (positionSet_subset hshorter hmore) hfinite
  rw [← ncard_positionSet (by omega) hroom, ← ncard_positionSet hstride (by omega)]
  exact_mod_cast hcard

end PaddingMode

/-! ## The numbers on the way to an extent -/

/-- The numbers that a quotient is computed through when it is rounded up. -/
def ceilDivSteps (numerator denominator : Int) : List Int :=
  [numerator + denominator, numerator + denominator - 1,
    (numerator + denominator - 1).tdiv denominator]

/-- The numbers that the extent of a window with positive sizes is computed through. -/
def PaddingMode.steps (mode : PaddingMode) (w : Window) : List Int :=
  match mode with
  | .validOnly | .custom =>
    if w.input < w.kernel then []
    else [w.input - w.kernel, (w.input - w.kernel).tdiv w.stride,
      (w.input - w.kernel).tdiv w.stride + 1]
  | .sizeSame => ceilDivSteps w.input w.stride
  | .sizeFull =>
    [w.input + w.kernel, w.input + w.kernel - 1] ++
      ceilDivSteps (w.input + w.kernel - 1) w.stride

/-- A failing check reports nothing but the overflow. -/
theorem Extent.check_eq_error_iff {n : Int} {e : Failure} :
    check n = .error e ↔ ¬ Fits n ∧ e = .overflow := by
  rw [check]
  split <;> simp_all [eq_comm]

theorem ceilDiv_eq_error {a b : Int} {e : Failure} (h : ceilDiv a b = .error e) :
    e = .overflow ∧ ∃ n ∈ ceilDivSteps a b, ¬ Extent.Fits n := by
  rcases bind_eq_error_iff.mp h with hadd | ⟨grown, hadd, hrest⟩
  · obtain ⟨hout, rfl⟩ := Extent.check_eq_error_iff.mp hadd
    exact ⟨rfl, _, by simp [ceilDivSteps], hout⟩
  · obtain ⟨-, rfl⟩ := Extent.check_eq_ok_iff.mp hadd
    rcases bind_eq_error_iff.mp hrest with hsub | ⟨last, -, hdone⟩
    · obtain ⟨hout, rfl⟩ := Extent.check_eq_error_iff.mp hsub
      exact ⟨rfl, _, by simp [ceilDivSteps], hout⟩
    · cases hdone

theorem ceilDiv_eq_ok {a b c : Int} (ha : 0 < a) (hb : 0 < b) (h : ceilDiv a b = .ok c) :
    c = (a - 1) / b + 1 := by
  obtain ⟨grown, hadd, -⟩ := bind_eq_ok_iff.mp h
  rw [PaddingPolicy.ceilDiv_eq ha hb (Extent.check_eq_ok_iff.mp hadd).1] at h
  exact (Except.ok.inj h).symm

namespace PaddingMode

variable {mode : PaddingMode} {w : Window} {found : Option Int} {e : Failure}

/-- The positions of a window that has room are found by their count. -/
theorem positions_eq_ok (hinput : 0 < w.input) (hstride : 0 < w.stride) (hroom : 0 < mode.room w)
    (h : mode.positions w = .ok found) : found = some (mode.count w) := by
  cases mode with
  | validOnly | custom =>
    simp only [room] at hroom
    rw [positions, if_neg (by omega), Int.tdiv_eq_ediv_of_nonneg (by omega)] at h
    rw [count, room, Int.add_sub_cancel]
    exact (Except.ok.inj h).symm
  | sizeSame =>
    obtain ⟨extent, hextent, hfound⟩ := bind_eq_ok_iff.mp h
    rw [pure_eq_ok_iff.mp hfound, ceilDiv_eq_ok hinput hstride hextent]
    rfl
  | sizeFull =>
    obtain ⟨grown, hadd, hrest⟩ := bind_eq_ok_iff.mp h
    obtain ⟨ending, hsub, hrest⟩ := bind_eq_ok_iff.mp hrest
    obtain ⟨-, rfl⟩ := Extent.check_eq_ok_iff.mp hadd
    obtain ⟨-, rfl⟩ := Extent.check_eq_ok_iff.mp hsub
    obtain ⟨extent, hextent, hfound⟩ := bind_eq_ok_iff.mp hrest
    rw [pure_eq_ok_iff.mp hfound, ceilDiv_eq_ok hroom hstride hextent]
    rfl

/-- Positions are not found only if a number on the way leaves the range. -/
theorem positions_eq_error (h : mode.positions w = .error e) :
    e = .overflow ∧ ∃ n ∈ mode.steps w, ¬ Extent.Fits n := by
  cases mode with
  | validOnly | custom =>
    rw [positions] at h
    split at h <;> cases h
  | sizeSame =>
    rcases bind_eq_error_iff.mp h with hceil | ⟨extent, -, hdone⟩
    · exact ceilDiv_eq_error hceil
    · cases hdone
  | sizeFull =>
    rcases bind_eq_error_iff.mp h with hadd | ⟨grown, hadd, hrest⟩
    · obtain ⟨hout, rfl⟩ := Extent.check_eq_error_iff.mp hadd
      exact ⟨rfl, _, by simp [steps], hout⟩
    obtain ⟨-, rfl⟩ := Extent.check_eq_ok_iff.mp hadd
    rcases bind_eq_error_iff.mp hrest with hsub | ⟨ending, hsub, hrest⟩
    · obtain ⟨hout, rfl⟩ := Extent.check_eq_error_iff.mp hsub
      exact ⟨rfl, _, by simp [steps], hout⟩
    obtain ⟨-, rfl⟩ := Extent.check_eq_ok_iff.mp hsub
    rcases bind_eq_error_iff.mp hrest with hceil | ⟨extent, -, hdone⟩
    · obtain ⟨rfl, n, hn, hout⟩ := ceilDiv_eq_error hceil
      exact ⟨rfl, n, List.mem_append_right _ hn, hout⟩
    · cases hdone

end PaddingMode

/-! ## Extents -/

namespace PaddingPolicy

/-- There is no position for the window: a size is not positive, or the window has to lie on an
input that is shorter. -/
def Misfits (p : PaddingPolicy) (w : Window) : Prop :=
  w.input ≤ 0 ∨ w.kernel ≤ 0 ∨ w.stride ≤ 0 ∨
    ((p.mode w.axis = .validOnly ∨ p.mode w.axis = .custom) ∧ w.input < w.kernel)

instance (p : PaddingPolicy) (w : Window) : Decidable (p.Misfits w) :=
  inferInstanceAs (Decidable (_ ∨ _))

/-- The numbers that the extent of a window is computed through. -/
def steps (p : PaddingPolicy) (w : Window) : List Int :=
  if w.kernel ≤ 0 ∨ w.stride ≤ 0 ∨ w.input ≤ 0 then [] else (p.mode w.axis).steps w

/-- One of the numbers that the extent is computed through leaves the range of an extent. -/
def Overruns (p : PaddingPolicy) (w : Window) : Prop := ∃ n ∈ p.steps w, ¬ Extent.Fits n

instance (p : PaddingPolicy) (w : Window) : Decidable (p.Overruns w) :=
  inferInstanceAs (Decidable (∃ n ∈ p.steps w, ¬ Extent.Fits n))

variable {p q : PaddingPolicy} {w w' : Window} {m k : Int} {e : Failure}

theorem not_misfits_iff : ¬ p.Misfits w ↔
    0 < w.input ∧ 0 < w.kernel ∧ 0 < w.stride ∧ 0 < (p.mode w.axis).room w := by
  unfold Misfits
  cases p.mode w.axis <;> simp [PaddingMode.room] <;> omega

theorem extent_of_misfits (h : p.Misfits w) : p.extent w = .ok none := by
  by_cases hsizes : w.kernel ≤ 0 ∨ w.stride ≤ 0 ∨ w.input ≤ 0
  · exact extent_of_nonpos hsizes
  · rcases h with h | h | h | ⟨hmode, hlonger⟩
    · exact absurd (.inr (.inr h)) hsizes
    · exact absurd (.inl h) hsizes
    · exact absurd (.inr (.inl h)) hsizes
    · exact extent_of_shorter hmode hlonger

/-- If an extent is found at all, a window that fits has its count. -/
theorem extent_eq_ok {found : Option Int} (hfits : ¬ p.Misfits w) (h : p.extent w = .ok found) :
    found = some ((p.mode w.axis).count w) := by
  obtain ⟨hinput, hkernel, hstride, hroom⟩ := not_misfits_iff.mp hfits
  rw [extent, if_neg (by omega)] at h
  obtain ⟨suggested, hpositions, hfound⟩ := bind_eq_ok_iff.mp h
  -- The count is positive, so the last check of the extent lets it through.
  have hcount := PaddingMode.positions_eq_ok hinput hstride hroom hpositions
  rw [pure_eq_ok_iff.mp hfound, hcount, Option.bind_some]
  exact if_pos (PaddingMode.count_pos hstride hroom)

theorem extent_eq_none_iff : p.extent w = .ok none ↔ p.Misfits w := by
  refine ⟨fun h => ?_, extent_of_misfits⟩
  by_contra hfits
  cases extent_eq_ok hfits h

/-- An extent belongs to a window that fits, and is its count. -/
theorem extent_eq_some (h : p.extent w = .ok (some m)) :
    ¬ p.Misfits w ∧ m = (p.mode w.axis).count w := by
  have hfits : ¬ p.Misfits w := by
    intro hmisfits
    rw [extent_of_misfits hmisfits] at h
    cases h
  exact ⟨hfits, Option.some.inj (extent_eq_ok hfits h)⟩

/-- An extent is not found only if a number on the way leaves the range. -/
theorem extent_eq_error (h : p.extent w = .error e) : e = .overflow ∧ p.Overruns w := by
  rw [extent] at h
  split at h
  · cases h
  · next hsizes =>
    rcases bind_eq_error_iff.mp h with hpositions | ⟨suggested, -, hdone⟩
    · obtain ⟨he, n, hn, hout⟩ := PaddingMode.positions_eq_error hpositions
      exact ⟨he, n, by rwa [steps, if_neg hsizes], hout⟩
    · cases hdone

/-- Without a number that leaves the range, a window that fits has its count. -/
theorem extent_of_fits (hfits : ¬ p.Misfits w) (hsteps : ¬ p.Overruns w) :
    p.extent w = .ok (some ((p.mode w.axis).count w)) := by
  cases h : p.extent w with
  | error e => exact absurd (extent_eq_error h).2 hsteps
  | ok found => rw [extent_eq_ok hfits h]

/-- Nothing but the mode of the axis of the window matters. -/
theorem extent_congr (hmode : q.mode w.axis = p.mode w.axis) : q.extent w = p.extent w := by
  rw [extent, extent, hmode]
  rfl

/-- The window that has more room and a shorter stride has the larger extent. -/
theorem extent_le_extent (h : p.extent w = .ok (some m)) (h' : q.extent w' = .ok (some k))
    (hshorter : w'.stride ≤ w.stride)
    (hmore : (p.mode w.axis).room w ≤ (q.mode w'.axis).room w') : m ≤ k := by
  obtain ⟨hfits, rfl⟩ := extent_eq_some h
  obtain ⟨hfits', rfl⟩ := extent_eq_some h'
  obtain ⟨-, -, -, hroom⟩ := not_misfits_iff.mp hfits
  obtain ⟨-, -, hstride, -⟩ := not_misfits_iff.mp hfits'
  exact PaddingMode.count_le_count hstride hshorter hroom hmore

/-- The extent of a window is the number of its positions: where no number on the way leaves the
range of an extent, there is none exactly if a size is not positive or the window has to lie on a
shorter input, and else it is the number of positions in the mode of the axis, at least one.  No
other mode of the policy matters.  The further a window may reach over the border the larger its
extent, which grows with the input and shrinks as the stride grows. -/
theorem extent_counts_positions (p : PaddingPolicy) (w : Window) (hsteps : ¬ p.Overruns w) :
    (p.extent w = .ok none ↔ w.input ≤ 0 ∨ w.kernel ≤ 0 ∨ w.stride ≤ 0 ∨
      ((p.mode w.axis = .validOnly ∨ p.mode w.axis = .custom) ∧ w.input < w.kernel)) ∧
    (p.extent w ≠ .ok none → ∃ m, p.extent w = .ok (some m) ∧ 1 ≤ m ∧
      m = ((p.mode w.axis).positionSet w).ncard) ∧
    (∀ q : PaddingPolicy, q.mode w.axis = p.mode w.axis → q.extent w = p.extent w) ∧
    (∀ (q : PaddingPolicy) (m k : Int), p.extent w = .ok (some m) → q.extent w = .ok (some k) →
      (p.mode w.axis).reach ≤ (q.mode w.axis).reach → m ≤ k) ∧
    ∀ (w' : Window) (m k : Int), p.extent w = .ok (some m) → p.extent w' = .ok (some k) →
      w'.axis = w.axis → w'.kernel = w.kernel → w.input ≤ w'.input → w'.stride ≤ w.stride →
      m ≤ k := by
  refine ⟨extent_eq_none_iff, fun hsome => ?_, fun q hmode => extent_congr hmode,
    fun q m k hp hq hreach => ?_, fun w' m k hw hw' haxis hkernel hinput hstride => ?_⟩
  · have hfits : ¬ p.Misfits w := mt extent_eq_none_iff.mpr hsome
    obtain ⟨-, -, hstride, hroom⟩ := not_misfits_iff.mp hfits
    exact ⟨_, extent_of_fits hfits hsteps, PaddingMode.count_pos hstride hroom,
      (PaddingMode.ncard_positionSet hstride hroom).symm⟩
  · obtain ⟨-, hkernel, -, -⟩ := not_misfits_iff.mp (extent_eq_some hp).1
    exact extent_le_extent hp hq (Int.le_refl _) (PaddingMode.room_le_of_reach hkernel hreach)
  · refine extent_le_extent hw hw' hstride ?_
    rw [haxis]
    exact PaddingMode.room_mono hkernel hinput

/-- A window of three places that steps by two over seven has three positions inside, and five if
it only has to touch the input. -/
theorem extent_counts_positions_seven :
    let w : Window := ⟨.x, 7, 3, 2⟩
    (¬ validOnly.Overruns w ∧ validOnly.extent w = .ok (some 3) ∧
      (3 : Int) = (PaddingMode.validOnly.positionSet w).ncard) ∧
    ¬ sizeFull.Overruns w ∧ sizeFull.extent w = .ok (some 5) ∧
      (5 : Int) = (PaddingMode.sizeFull.positionSet w).ncard := by
  intro w
  have hvalid : ¬ validOnly.Overruns w := by decide
  have hfull : ¬ sizeFull.Overruns w := by decide
  obtain ⟨-, hinside, -⟩ := extent_counts_positions validOnly w hvalid
  obtain ⟨-, htouching, -⟩ := extent_counts_positions sizeFull w hfull
  obtain ⟨m, hm, -, hcount⟩ := hinside (by decide)
  obtain ⟨k, hk, -, hcount'⟩ := htouching (by decide)
  have hthree : validOnly.extent w = .ok (some 3) := by decide
  have hfive : sizeFull.extent w = .ok (some 5) := by decide
  cases hm.symm.trans hthree
  cases hk.symm.trans hfive
  exact ⟨⟨hvalid, hthree, hcount⟩, hfull, hfive, hcount'⟩

end PaddingPolicy

end LayerFlow
