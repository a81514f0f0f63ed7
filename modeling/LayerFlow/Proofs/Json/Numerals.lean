/-
LayerFlow.Proofs.Json.Numerals

The numerals that numbers are written with are proper: no leading zeros, and digits wherever they
are announced.  For whole numbers this is a matter of their digits.  A single-precision number is
written with the digits of a decimal near its value; that decimal is positive, because it lies in
the rounding interval of a positive number, or because the last grid is fine enough for the value.

Main statements: `proper_ofNat`, `proper_ofInt` and `proper_numeral`.
-/
import LayerFlow.Binary32.Shortest
import LayerFlow.Proofs.Json.Scanning
import Mathlib.Algebra.Order.Field.Power
import Mathlib.Data.List.DropRight
import Mathlib.Data.Nat.Cast.Order.Field
import Mathlib.Tactic.Positivity
import Mathlib.Tactic.Ring

namespace LayerFlow

/-! ## Whole numbers -/

/-- Digits of which the first one is not zero. -/
def Significant (ds : List Char) : Prop :=
  ∃ c rest, ds = c :: rest ∧ c ≠ '0' ∧ ∀ d ∈ c :: rest, isDigit d = true

section

variable {ds more : List Char}

theorem Significant.ne_nil (h : Significant ds) : ds ≠ [] := by
  obtain ⟨c, rest, rfl, -⟩ := h
  exact List.cons_ne_nil c rest

theorem Significant.isDigit (h : Significant ds) : ∀ d ∈ ds, isDigit d = true := by
  obtain ⟨c, rest, rfl, -, hdigits⟩ := h
  exact hdigits

theorem Significant.append (h : Significant ds) (hmore : ∀ d ∈ more, LayerFlow.isDigit d = true) :
    Significant (ds ++ more) := by
  obtain ⟨c, rest, rfl, hne, hdigits⟩ := h
  exact ⟨c, rest ++ more, rfl, hne, List.forall_mem_append.mpr ⟨hdigits, hmore⟩⟩

/-- The first digits are significant if there are any. -/
theorem Significant.of_prefix (h : Significant (ds ++ more)) (hsome : ds ≠ []) :
    Significant ds := by
  obtain ⟨d, rest, rfl⟩ := List.exists_cons_of_ne_nil hsome
  obtain ⟨c, all, hall, hne, hdigits⟩ := h
  obtain ⟨rfl, rfl⟩ := List.cons.inj hall
  exact ⟨d, rest, rfl, hne, (List.forall_mem_append.mp hdigits).1⟩

theorem Significant.take (h : Significant ds) {places : Nat} (hplaces : 0 < places) :
    Significant (ds.take places) := by
  rw [← List.take_append_drop places ds] at h
  refine h.of_prefix ?_
  rw [ne_eq, List.take_eq_nil_iff, not_or]
  exact ⟨hplaces.ne', fun hnil => h.ne_nil (by rw [hnil]; simp)⟩

end

theorem digitChar_ne_zero {n : Nat} (hpos : 0 < n) (hlt : n < 10) : digitChar n ≠ '0' := by
  interval_cases n <;> decide

/-- The digits of a positive number do not start with a zero. -/
theorem significant_digits {n : Nat} (hpos : 0 < n) : Significant (digits n) := by
  have hdigit : ∀ k, ∀ d ∈ [digitChar k], isDigit d = true := fun k =>
    List.forall_mem_singleton.mpr (isDigit_digitChar k)
  fun_induction digits n with
  | case1 n hlt => exact ⟨_, [], rfl, digitChar_ne_zero hpos hlt, hdigit n⟩
  | case2 n hle ih => exact (ih (by omega)).append (hdigit n)

namespace Numeral

theorem proper_plain (negative : Bool) (n : Nat) :
    (Numeral.mk negative (LayerFlow.digits n) none none).Proper where
  whole := by
    rcases Nat.eq_zero_or_pos n with rfl | hpos
    · left
      rw [LayerFlow.digits, if_pos (by decide)]
      rfl
    · exact .inr (significant_digits hpos)
  fraction := by simp
  power := by simp

theorem proper_ofNat (n : Nat) : (ofNat n).Proper := proper_plain false n

theorem proper_ofInt (n : Int) : (ofInt n).Proper := proper_plain _ n.natAbs

end Numeral

/-! ## Decimals -/

namespace Binary32

theorem isDigit_of_mem_zeros {n : Nat} {c : Char} (h : c ∈ zeros n) : isDigit c = true := by
  rw [List.eq_of_mem_replicate h]
  rfl

/-- Trailing zeros do not matter to digits that start with another one. -/
theorem significant_dropTrailingZeros {ds : List Char} (h : Significant ds) :
    Significant (dropTrailingZeros ds) := by
  have hdrop : dropTrailingZeros ds = ds.rdropWhile (· == '0') := rfl
  obtain ⟨suffix, hsuffix⟩ := List.rdropWhile_prefix (· == '0') (l := ds)
  rw [← hsuffix] at h
  rw [hdrop]
  refine h.of_prefix fun hnil => ?_
  rw [hsuffix] at h
  -- The first digit is no zero, so it stays.
  obtain ⟨c, rest, rfl, hne, -⟩ := h
  have hall := List.rdropWhile_eq_nil_iff.mp hnil c List.mem_cons_self
  exact hne (by simpa using hall)

/-- The decimal of a positive number, whatever its power of ten. -/
theorem significant_ofScaled {n : Nat} (hpos : 0 < n) (k : Int) :
    Significant (Scientific.ofScaled n k).digits :=
  significant_dropTrailingZeros (significant_digits hpos)

/-- What a whole number has behind the point, if it has a point. -/
theorem digits_pointOnWhole (layout : Layout) :
    ∀ ds, (if layout.pointOnWhole then some ['0'] else none) = some ds →
      ds ≠ [] ∧ ∀ d ∈ ds, isDigit d = true := by
  intro ds hds
  split at hds
  · cases hds
    exact ⟨by simp, by simp [isDigit]⟩
  · cases hds

/-- However it is laid out, a decimal gives a proper numeral. -/
theorem proper_write (layout : Layout) (negative : Bool) {x : Scientific}
    (h : Significant x.digits) : (layout.write negative x).Proper := by
  have hzeros : ∀ n, ∀ d ∈ zeros n, isDigit d = true := fun _ _ => isDigit_of_mem_zeros
  unfold Layout.write
  dsimp only
  split
  · split
    -- Below one: zeros behind the point come first.
    · refine ⟨.inl rfl, ?_, by simp⟩
      rintro _ ⟨⟩
      exact ⟨List.append_ne_nil_of_right_ne_nil _ h.ne_nil,
        List.forall_mem_append.mpr ⟨hzeros _, h.isDigit⟩⟩
    · next hexponent =>
      split
      -- A whole number: zeros fill up the places.
      · exact ⟨.inr (h.append (hzeros _)), digits_pointOnWhole layout, by simp⟩
      · next hlong =>
        refine ⟨.inr (h.take (by omega)), ?_, by simp⟩
        rintro _ ⟨⟩
        exact ⟨by rwa [ne_eq, List.drop_eq_nil_iff],
          fun d hd => h.isDigit d (List.mem_of_mem_drop hd)⟩
  · refine ⟨.inr (h.take Nat.one_pos), fun ds hds => ?_, ?_⟩
    · split at hds
      · cases hds
      · next hsome =>
        cases hds
        exact ⟨by simpa using hsome, fun d hd => h.isDigit d (List.mem_of_mem_drop hd)⟩
    · rintro _ ⟨⟩
      refine ⟨fun sign hsign => ?_, digits_ne_nil _, fun d hd => isDigit_of_mem_digits hd⟩
      cases hsign
      split <;> simp

/-! ## The shortest decimal is positive -/

/-- A decimal in an interval of positive numbers is positive. -/
theorem pos_of_nearby? {tie : DecimalTie} {i : Interval} {num den d : Nat} (hlow : 0 < i.low)
    (hden : 0 < den) (h : nearby? tie i num den = some d) : 0 < d := by
  have hcontains := (nearby_mem h).2
  rcases Nat.eq_zero_or_pos d with rfl | hpos
  · -- Zero lies below the interval.
    have hpos : 0 < i.low * den := Nat.mul_pos hlow hden
    rw [Interval.contains, Nat.zero_mul] at hcontains
    split at hcontains
    · simp at hcontains
      omega
    · simp at hcontains
  · exact hpos

theorem gridStep_pos (e k : Int) : 0 < (gridStep e k).1 ∧ 0 < (gridStep e k).2 := by
  unfold gridStep
  constructor <;> split <;> split <;> simp [twoPow_pos, tenPow_pos]

/-- A search over grids ends with a positive decimal, if the last grid is fine enough. -/
theorem significant_searchGrids {tie : DecimalTie} {i : Interval} {e : Int} (hlow : 0 < i.low)
    (count : Nat) (k : Int)
    (hlast : (gridStep e (k - count + 1)).1 ≤ i.value * (gridStep e (k - count + 1)).2) :
    Significant (searchGrids tie i e count k).digits := by
  induction count generalizing k with
  | zero =>
    rw [Nat.cast_zero, sub_zero] at hlast
    exact significant_ofScaled (Nat.div_pos hlast (gridStep_pos e (k + 1)).1) _
  | succ count ih =>
    rw [searchGrids]
    split
    · next d hnearby =>
      exact significant_ofScaled (pos_of_nearby? hlow (gridStep_pos e k).2 hnearby) _
    · refine ih (k - 1) ?_
      have hk : k - 1 - (count : Int) + 1 = k - (count + 1 : Nat) + 1 := by omega
      rwa [hk]

/-! ### Powers of ten below a number -/

theorem twoPow_cast (n : Nat) : ((twoPow n : Nat) : ℚ) = 2 ^ n := by
  show ((2 ^ n : Nat) : ℚ) = 2 ^ n
  push_cast
  rfl

theorem tenPow_cast (n : Nat) : ((tenPow n : Nat) : ℚ) = 10 ^ n := by
  show ((10 ^ n : Nat) : ℚ) = 10 ^ n
  push_cast
  rfl

theorem digitCount_pos (n : Nat) : 0 < digitCount n := by
  rw [digitCount]
  split <;> omega

theorem lt_pow_digitCount (n : Nat) : n < 10 ^ digitCount n := by
  fun_induction digitCount n with
  | case1 n hlt => omega
  | case2 n hle ih =>
    rw [pow_succ]
    omega

theorem pow_digitCount_le {n : Nat} (hpos : 0 < n) : 10 ^ (digitCount n - 1) ≤ n := by
  fun_induction digitCount n with
  | case1 n hlt => exact hpos
  | case2 n hle ih =>
    have hprev := ih (by omega)
    rw [Nat.add_sub_cancel]
    obtain ⟨count, hcount⟩ := Nat.exists_eq_succ_of_ne_zero (digitCount_pos (n / 10)).ne'
    rw [hcount, Nat.succ_sub_one] at hprev
    rw [hcount, pow_succ]
    omega

/-- A positive quotient is at least the power of ten of its first digit. -/
theorem zpow_leadingPower_le {num den : Nat} (hnum : 0 < num) (hden : 0 < den) :
    (10 : ℚ) ^ leadingPower num den ≤ num / den := by
  have hdenq : (0 : ℚ) < den := by exact_mod_cast hden
  rw [leadingPower]
  split
  · next hle =>
    have hquotient := pow_digitCount_le (Nat.div_pos hle hden)
    have hcount : (digitCount (num / den) : Int) - 1 = (digitCount (num / den) - 1 : Nat) := by
      have hpos := digitCount_pos (num / den)
      omega
    rw [hcount, zpow_natCast]
    calc (10 : ℚ) ^ (digitCount (num / den) - 1) ≤ ((num / den : Nat) : ℚ) := by
          exact_mod_cast hquotient
      _ ≤ num / den := Nat.cast_div_le
  · -- Below one the digits of the inverse are counted.
    have hquotient := (Nat.div_lt_iff_lt_mul hnum).mp (lt_pow_digitCount ((den - 1) / num))
    have hden : den ≤ 10 ^ digitCount ((den - 1) / num) * num := by omega
    have hpow : (0 : ℚ) < 10 ^ digitCount ((den - 1) / num) := by positivity
    rw [zpow_neg, zpow_natCast, inv_le_iff_one_le_mul₀ hpow, div_mul_eq_mul_div, one_le_div hdenq,
      mul_comm]
    exact_mod_cast hden

/-- A power of a positive base as the quotient of the two natural powers that it is given by. -/
theorem zpow_toNat_split {base : ℚ} (hbase : base ≠ 0) (j : Int) :
    base ^ j.toNat = base ^ j * base ^ (-j).toNat := by
  rw [← zpow_natCast, ← zpow_natCast, ← zpow_add₀ hbase]
  congr 1
  omega

/-- The step of a grid in the units of an interval. -/
theorem gridStep_cast (e k : Int) :
    ((gridStep e k).1 : ℚ) = 10 ^ k * 2 ^ (2 - e) * (gridStep e k).2 := by
  have htens := zpow_toNat_split (show (10 : ℚ) ≠ 0 by norm_num) k
  have htwos := zpow_toNat_split (show (2 : ℚ) ≠ 0 by norm_num) (2 - e)
  rw [neg_sub] at htwos
  have hstep : gridStep e k = (tenPow k.toNat * twoPow (2 - e).toNat,
      tenPow (-k).toNat * twoPow (e - 2).toNat) := by
    -- Of the two powers of each base one has the exponent zero.
    have hzero : ∀ j : Int, j ≤ 0 → j.toNat = 0 := fun j => Int.toNat_of_nonpos
    have hten : (if 0 ≤ k then (tenPow k.toNat, 1) else (1, tenPow (-k).toNat)) =
        (tenPow k.toNat, tenPow (-k).toNat) := by
      split
      · rw [hzero (-k) (by omega), tenPow_zero]
      · rw [hzero k (by omega), tenPow_zero]
    have htwo : (if 2 ≤ e then (1, twoPow (e - 2).toNat) else (twoPow (2 - e).toNat, 1)) =
        (twoPow (2 - e).toNat, twoPow (e - 2).toNat) := by
      split
      · rw [hzero (2 - e) (by omega), twoPow_zero]
      · rw [hzero (e - 2) (by omega), twoPow_zero]
    simp only [gridStep, hten, htwo]
  rw [hstep]
  push_cast [tenPow_cast, twoPow_cast]
  rw [htens, htwos]
  ring

/-- A grid is fine enough for a number that is not below its step. -/
theorem gridStep_le {m : Nat} {e k : Int} (h : (10 : ℚ) ^ k ≤ m * 2 ^ e) :
    (gridStep e k).1 ≤ 4 * m * (gridStep e k).2 := by
  have hgrid : (10 : ℚ) ^ k * 2 ^ (2 - e) ≤ 4 * m := by
    have htwo : (0 : ℚ) < 2 ^ (2 - e) := by positivity
    calc (10 : ℚ) ^ k * 2 ^ (2 - e) ≤ m * 2 ^ e * 2 ^ (2 - e) := by gcongr
      _ = 4 * m := by
        rw [mul_assoc, ← zpow_add₀ (by norm_num), add_sub_cancel]
        ring
  have hstep : ((gridStep e k).1 : ℚ) ≤ 4 * m * (gridStep e k).2 := by
    rw [gridStep_cast]
    gcongr
  exact_mod_cast hstep

/-! ### The numerals of numbers -/

theorem significand_pos {x : Binary32} (h : x.isZero = false) : 0 < x.significand := by
  have hmagnitude : x.magnitude ≠ 0 := by simpa [isZero] using h
  rw [significand]
  split
  · next hfield =>
    rw [exponentField] at hfield
    rw [fraction]
    omega
  · omega

theorem significant_shortest {x : Binary32} (h : x.isZero = false) (tie : DecimalTie) :
    Significant (x.shortest tie).digits := by
  have hpos := significand_pos h
  have hlow : 0 < x.interval.low := by
    rw [interval]
    dsimp only
    split <;> omega
  -- The coarsest grid starts at the first digit of the value, the last one is finer by eight
  -- digits.
  have hfine : ∀ num den : Nat, 0 < num → 0 < den →
      ((num : ℚ) / den = x.significand * 2 ^ x.exponent) →
      Significant (searchGrids tie x.interval x.exponent 9 (leadingPower num den)).digits := by
    intro num den hnum hden hvalue
    refine significant_searchGrids hlow 9 _ (gridStep_le ?_)
    calc (10 : ℚ) ^ (leadingPower num den - (9 : Nat) + 1) ≤ 10 ^ leadingPower num den := by
          apply zpow_le_zpow_right₀ (by norm_num)
          omega
      _ ≤ x.significand * 2 ^ x.exponent := hvalue ▸ zpow_leadingPower_le hnum hden
  rw [shortest]
  split
  · next he =>
    refine hfine _ 1 (Nat.mul_pos hpos (twoPow_pos _)) Nat.one_pos ?_
    push_cast [twoPow_cast]
    rw [div_one, ← zpow_natCast, Int.toNat_of_nonneg he]
  · next he =>
    refine hfine _ _ hpos (twoPow_pos _) ?_
    push_cast [twoPow_cast]
    rw [← zpow_natCast, Int.toNat_of_nonneg (by omega), zpow_neg, div_inv_eq_mul]

/-- The numeral of a number is proper, in any layout. -/
theorem proper_numeral (layout : Layout) (x : Binary32) : (x.numeral layout).Proper := by
  rw [numeral]
  split
  · exact ⟨.inl rfl, digits_pointOnWhole layout, by simp⟩
  · next hzero =>
    have hpositive : x.isZero = false := by simpa using hzero
    exact proper_write layout x.negative (significant_shortest hpositive _)

end Binary32

end LayerFlow
