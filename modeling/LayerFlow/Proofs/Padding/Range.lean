/-
LayerFlow.Proofs.Padding.Range

Which extents can be computed.  A window that stays inside never leaves the range of an extent on
the way.  The other modes round a quotient up by adding to its numerator, and the sum may be out of
range although the quotient is small: with a stride of any length there is one position at least.

Main statement: `extent_overflow_exact`.
-/
import LayerFlow.Layer.Convolution
import LayerFlow.Proofs.Padding.Positions
import Mathlib.Data.Rat.Floor

namespace LayerFlow

open Traversal

/-- The sizes of a window are numbers of the machine. -/
def Window.Sized (w : Window) : Prop :=
  Extent.Fits w.input ∧ Extent.Fits w.kernel ∧ Extent.Fits w.stride

instance (w : Window) : Decidable w.Sized := inferInstanceAs (Decidable (_ ∧ _))

/-! ## Exact extents -/

theorem floor_intCast_div {a b : Int} (hb : 0 < b) : ⌊(a : ℚ) / b⌋ = a / b := by
  have hpos : (0 : ℚ) < b := by exact_mod_cast hb
  refine eq_of_forall_le_iff fun z => ?_
  rw [Int.le_floor, le_div_iff₀ hpos, Int.le_ediv_iff_mul_le hb]
  exact_mod_cast Iff.rfl

theorem ceil_intCast_div {a b : Int} (hb : 0 < b) : ⌈(a : ℚ) / b⌉ = (a - 1) / b + 1 := by
  have hpos : (0 : ℚ) < b := by exact_mod_cast hb
  refine eq_of_forall_ge_iff fun z => ?_
  -- Both sides are at most `z` exactly if `a` is at most `z * b`.
  rw [Int.ceil_le, div_le_iff₀ hpos, Int.add_one_le_iff, Int.ediv_lt_iff_lt_mul hb,
    Int.sub_one_lt_iff]
  exact_mod_cast Iff.rfl

namespace PaddingMode

/-- The extent in whole numbers, with no bound on them. -/
def exactExtent (mode : PaddingMode) (w : Window) : Int :=
  match mode with
  | .validOnly | .custom => ⌊((w.input - w.kernel : Int) : ℚ) / w.stride⌋ + 1
  | .sizeSame => ⌈(w.input : ℚ) / w.stride⌉
  | .sizeFull => ⌈((w.input + w.kernel - 1 : Int) : ℚ) / w.stride⌉

variable {mode : PaddingMode} {w : Window}

theorem exactExtent_eq_count (hstride : 0 < w.stride) : mode.exactExtent w = mode.count w := by
  cases mode with
  | validOnly | custom =>
    rw [exactExtent, floor_intCast_div hstride, count, room, Int.add_sub_cancel]
  | sizeSame | sizeFull => exact ceil_intCast_div hstride

end PaddingMode

/-! ## Numbers that leave the range -/

theorem tdiv_bounds {a b : Int} (ha : 0 ≤ a) (hb : 0 < b) : 0 ≤ a.tdiv b ∧ a.tdiv b ≤ a := by
  rw [Int.tdiv_eq_ediv_of_nonneg ha]
  exact ⟨Int.ediv_nonneg ha (Int.le_of_lt hb), Int.ediv_le_self b ha⟩

/-- Rounding a positive quotient up leaves the range exactly in its first step. -/
theorem ceilDivSteps_overrun_iff {a b : Int} (ha : 0 < a) (hb : 0 < b) :
    (∃ n ∈ ceilDivSteps a b, ¬ Extent.Fits n) ↔ 0x8000000000000000 ≤ a + b := by
  -- Behind the sum the numbers only get smaller, and none of them is negative.
  obtain ⟨hnonneg, hle⟩ := tdiv_bounds (a := a + b - 1) (by omega) hb
  simp only [ceilDivSteps, List.mem_cons, List.not_mem_nil, or_false, exists_eq_or_imp,
    exists_eq_left, Extent.Fits]
  omega

theorem fits_of_ceilDiv {a b c : Int} (h : ceilDiv a b = .ok c) : Extent.Fits (a + b) := by
  obtain ⟨grown, hadd, -⟩ := bind_eq_ok_iff.mp h
  exact (Extent.check_eq_ok_iff.mp hadd).1

namespace PaddingMode

variable {mode : PaddingMode} {w : Window} {found : Option Int}

/-- What the sizes of a window have to be so that a number on the way to its extent leaves the
range. -/
def Overlong (mode : PaddingMode) (w : Window) : Prop :=
  mode = .sizeSame ∧ 0x8000000000000000 ≤ w.input + w.stride ∨
    mode = .sizeFull ∧ (0x8000000000000000 ≤ w.input + w.kernel ∨
      0x8000000000000000 ≤ w.input + w.kernel - 1 + w.stride)

theorem steps_overrun_iff (hsized : w.Sized) (hinput : 0 < w.input) (hkernel : 0 < w.kernel)
    (hstride : 0 < w.stride) : (∃ n ∈ mode.steps w, ¬ Extent.Fits n) ↔ mode.Overlong w := by
  cases mode with
  | validOnly | custom =>
    simp only [Overlong, reduceCtorEq, false_and, or_self, iff_false, not_exists, not_and, not_not,
      steps]
    obtain ⟨hfits, -, -⟩ := hsized
    split
    · simp
    · next hlong =>
      -- All three numbers lie between zero and the input.
      obtain ⟨hnonneg, hle⟩ := tdiv_bounds (a := w.input - w.kernel) (by omega) hstride
      simp only [List.mem_cons, List.not_mem_nil, or_false, forall_eq_or_imp, forall_eq,
        Extent.Fits] at hfits ⊢
      omega
  | sizeSame =>
    simp only [Overlong, steps, ceilDivSteps_overrun_iff hinput hstride, true_and, reduceCtorEq,
      false_and, or_false]
  | sizeFull =>
    have hceil := ceilDivSteps_overrun_iff (a := w.input + w.kernel - 1) (by omega) hstride
    have hsplit : (∃ n ∈ sizeFull.steps w, ¬ Extent.Fits n) ↔
        (∃ n ∈ [w.input + w.kernel, w.input + w.kernel - 1], ¬ Extent.Fits n) ∨
          ∃ n ∈ ceilDivSteps (w.input + w.kernel - 1) w.stride, ¬ Extent.Fits n := by
      simp only [steps, List.mem_append, or_and_right, exists_or]
    rw [hsplit, hceil]
    simp only [Overlong, reduceCtorEq, false_and, false_or, true_and, List.mem_cons,
      List.not_mem_nil, or_false, exists_eq_or_imp, exists_eq_left, Extent.Fits]
    omega

theorem not_overlong_of_positions (h : mode.positions w = .ok found) : ¬ mode.Overlong w := by
  cases mode with
  | validOnly | custom => simp [Overlong]
  | sizeSame =>
    obtain ⟨extent, hextent, -⟩ := bind_eq_ok_iff.mp h
    have hsum : Extent.Fits (w.input + w.stride) := fits_of_ceilDiv hextent
    rintro (⟨-, hlong⟩ | ⟨⟨⟩, -⟩)
    exact absurd hsum.2 (Int.not_lt.mpr hlong)
  | sizeFull =>
    obtain ⟨grown, hadd, hrest⟩ := bind_eq_ok_iff.mp h
    obtain ⟨ending, hsub, hrest⟩ := bind_eq_ok_iff.mp hrest
    obtain ⟨hsum, rfl⟩ := Extent.check_eq_ok_iff.mp hadd
    obtain ⟨-, rfl⟩ := Extent.check_eq_ok_iff.mp hsub
    obtain ⟨extent, hextent, -⟩ := bind_eq_ok_iff.mp hrest
    have hlast : Extent.Fits (w.input + w.kernel - 1 + w.stride) := fits_of_ceilDiv hextent
    rintro (⟨⟨⟩, -⟩ | ⟨-, hlong | hlong⟩)
    · exact absurd hsum.2 (Int.not_lt.mpr hlong)
    · exact absurd hlast.2 (Int.not_lt.mpr hlong)

/-- The only extent out of range is that of a window that steps by one and may touch the input with
its last place, if the two together are too long. -/
theorem fits_count_iff (hsized : w.Sized) (hstride : 0 < w.stride) (hroom : 0 < mode.room w)
    (hkernel : 0 < w.kernel) : Extent.Fits (mode.count w) ↔
      ¬ (mode = .sizeFull ∧ w.stride = 1 ∧ 0x8000000000000000 < w.input + w.kernel) := by
  obtain ⟨hinput, hkernelFits, -⟩ := hsized
  have hnonneg : 0 ≤ (mode.room w - 1) / w.stride := Int.ediv_nonneg (by omega) (by omega)
  have hle : (mode.room w - 1) / w.stride ≤ mode.room w - 1 := Int.ediv_le_self _ (by omega)
  unfold Extent.Fits at *
  cases mode with
  | validOnly | custom | sizeSame =>
    simp only [room, count, reduceCtorEq, false_and, not_false_eq_true, iff_true] at *
    omega
  | sizeFull =>
    simp only [room, count, true_and] at *
    by_cases hone : w.stride = 1
    · rw [hone, Int.ediv_one]
      omega
    · -- With a longer stride the quotient is half of the room at most.
      have hhalf : (w.input + w.kernel - 1 - 1) / w.stride * 2 ≤ w.input + w.kernel - 1 - 1 :=
        calc (w.input + w.kernel - 1 - 1) / w.stride * 2
            ≤ (w.input + w.kernel - 1 - 1) / w.stride * w.stride :=
              Int.mul_le_mul_of_nonneg_left (by omega) hnonneg
          _ ≤ w.input + w.kernel - 1 - 1 := Int.ediv_mul_le _ (by omega)
      omega

end PaddingMode

/-! ## Extents that are not found -/

namespace PaddingPolicy

variable {p : PaddingPolicy} {w : Window}

theorem overruns_iff (hsized : w.Sized) : p.Overruns w ↔
    0 < w.input ∧ 0 < w.kernel ∧ 0 < w.stride ∧ (p.mode w.axis).Overlong w := by
  by_cases hsizes : w.kernel ≤ 0 ∨ w.stride ≤ 0 ∨ w.input ≤ 0
  · simp only [Overruns, steps, if_pos hsizes, List.not_mem_nil, false_and, exists_false, false_iff]
    omega
  · rw [Overruns, steps, if_neg hsizes,
      PaddingMode.steps_overrun_iff hsized (by omega) (by omega) (by omega)]
    constructor
    · intro hlong
      exact ⟨by omega, by omega, by omega, hlong⟩
    · rintro ⟨-, -, -, hlong⟩
      exact hlong

/-- A number on the way that leaves the range is always met. -/
theorem extent_eq_overflow_iff (hsized : w.Sized) :
    p.extent w = .error .overflow ↔ p.Overruns w := by
  refine ⟨fun h => (extent_eq_error h).2, fun hover => ?_⟩
  obtain ⟨hinput, hkernel, hstride, hlong⟩ := (overruns_iff hsized).mp hover
  cases h : p.extent w with
  | error e => rw [(extent_eq_error h).1]
  | ok found =>
    rw [extent, if_neg (by omega)] at h
    obtain ⟨suggested, hpositions, -⟩ := bind_eq_ok_iff.mp h
    exact absurd hlong (PaddingMode.not_overlong_of_positions hpositions)

/-- The extent of a window with machine sizes is found and exact, unless all its sizes are positive
and a sum on the way is too long: that of input and stride where the window is centred on the input,
that of input and kernel, or of both and the stride less one, where it only touches the input.
Nothing else overflows, neither a window that does not fit nor any number on the way where the
window stays inside.  The exact extent itself is out of range in one of these cases only, that of a
window that steps by one and touches an input with which it is too long. -/
theorem extent_overflow_exact (p : PaddingPolicy) {w : Window} (hsized : w.Sized) :
    (p.extent w = .error .overflow ↔ 0 < w.input ∧ 0 < w.kernel ∧ 0 < w.stride ∧
      (p.mode w.axis = .sizeSame ∧ 0x8000000000000000 ≤ w.input + w.stride ∨
        p.mode w.axis = .sizeFull ∧ (0x8000000000000000 ≤ w.input + w.kernel ∨
          0x8000000000000000 ≤ w.input + w.kernel - 1 + w.stride))) ∧
    (∀ e, p.extent w = .error e → e = .overflow) ∧
    (p.Misfits w → p.extent w = .ok none) ∧
    (¬ p.Misfits w → p.extent w ≠ .error .overflow →
      p.extent w = .ok (some ((p.mode w.axis).exactExtent w))) ∧
    (p.mode w.axis = .validOnly ∨ p.mode w.axis = .custom → ∀ n ∈ p.steps w, Extent.Fits n) ∧
    (¬ p.Misfits w → (Extent.Fits ((p.mode w.axis).exactExtent w) ↔
      ¬ (p.mode w.axis = .sizeFull ∧ w.stride = 1 ∧
        0x8000000000000000 < w.input + w.kernel))) := by
  refine ⟨(extent_eq_overflow_iff hsized).trans (overruns_iff hsized),
    fun e h => (extent_eq_error h).1, extent_of_misfits, fun hfits hfound => ?_,
    fun hmode n hn => ?_, fun hfits => ?_⟩
  · obtain ⟨-, -, hstride, -⟩ := not_misfits_iff.mp hfits
    rw [PaddingMode.exactExtent_eq_count hstride]
    exact extent_of_fits hfits (mt (extent_eq_overflow_iff hsized).mpr hfound)
  · by_contra hout
    obtain ⟨-, -, -, hlong⟩ := (overruns_iff hsized).mp ⟨n, hn, hout⟩
    rcases hmode with hmode | hmode <;> simp [PaddingMode.Overlong, hmode] at hlong
  · obtain ⟨-, hkernel, hstride, hroom⟩ := not_misfits_iff.mp hfits
    rw [PaddingMode.exactExtent_eq_count hstride]
    exact PaddingMode.fits_count_iff hsized hstride hroom hkernel

/-- The longest stride overflows where the window is centred on the input, not where it stays
inside. -/
theorem extent_overflow_exact_longest :
    let w : Window := ⟨.x, 5, 3, 0x7fffffffffffffff⟩
    w.Sized ∧ sizeSame.extent w = .error .overflow ∧
      ¬ validOnly.Misfits w ∧ validOnly.extent w ≠ .error .overflow ∧
      validOnly.extent w = .ok (some (PaddingMode.validOnly.exactExtent w)) := by
  intro w
  have hsized : w.Sized := by decide
  obtain ⟨hsame, -⟩ := extent_overflow_exact sizeSame hsized
  obtain ⟨hvalid, -, -, hexact, -⟩ := extent_overflow_exact validOnly hsized
  have hfits : ¬ validOnly.Misfits w := by decide
  have hfound : validOnly.extent w ≠ .error .overflow := by decide
  exact ⟨hsized, hsame.mpr (by decide), hfits, hfound, hexact hfits hfound⟩

/-- A window that is centred on two places has one position if its stride is the longest there is,
but its extent overflows on the way, and with it the shape that a convolution makes. -/
theorem extent_overflows_at_longest_stride :
    let w : Window := ⟨.x, 2, 1, 0x7fffffffffffffff⟩
    w.Sized ∧ ¬ sizeSame.Misfits w ∧ PaddingMode.sizeSame.exactExtent w = 1 ∧
      sizeSame.extent w = .error .overflow ∧
      (Convolution.standard 1 1 1 0x7fffffffffffffff 1 true sizeSame).outputShape ⟨2, 1, 1, 1⟩ =
        .error .overflow := by
  intro w
  refine ⟨by decide, by decide, ?_, by decide, rfl⟩
  rw [PaddingMode.exactExtent_eq_count (by decide)]
  rfl

end PaddingPolicy

end LayerFlow
