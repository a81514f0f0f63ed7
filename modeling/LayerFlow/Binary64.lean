/-
LayerFlow.Binary64

The absolute values of finite double-precision numbers, with a multiplication and a division
that round to nearest, ties to even.  Scaling by a power of ten goes through the double nearest
to that power, so its result may differ in the last place from the double nearest to the
product.
-/
import LayerFlow.Binary32.Rounding

namespace LayerFlow

/-- The absolute value `significand · 2 ^ exponent` of a finite double-precision number. -/
structure Binary64 where
  significand : Nat
  exponent : Int
deriving DecidableEq, Repr

namespace Binary64

/-! ## Values -/

/-- The number nearest to `num / den`, or nothing if that is too large for the format. -/
def nearest? (num den : Nat) : Option Binary64 :=
  if num = 0 then some ⟨0, 0⟩
  else (BinaryFormat.double.round? num den).map fun (m, e) => ⟨m, e⟩

/-- Whether the value is zero. -/
def isZero (x : Binary64) : Bool := x.significand == 0

/-- The exact value as a quotient of whole numbers. -/
def quotient (x : Binary64) : Nat × Nat :=
  if 0 ≤ x.exponent then (x.significand * twoPow x.exponent.toNat, 1)
  else (x.significand, twoPow (-x.exponent).toNat)

/-- The single-precision number nearest to `± x`. -/
def toSingle (negative : Bool) (x : Binary64) : Binary32 :=
  Binary32.ofQuotient negative x.quotient.1 x.quotient.2

/-! ## Arithmetic -/

/-- The rounded product, or nothing if it is too large. -/
def mul? (x y : Binary64) : Option Binary64 :=
  nearest? (x.quotient.1 * y.quotient.1) (x.quotient.2 * y.quotient.2)

/-- The rounded quotient by a number other than zero, or nothing if it is too large. -/
def div? (x y : Binary64) : Option Binary64 :=
  nearest? (x.quotient.1 * y.quotient.2) (x.quotient.2 * y.quotient.1)

/-! ## Scaling by powers of ten -/

/-- The largest power of ten that does not exceed the format. -/
def largestTenPower : Nat := 308

/-- The number nearest to `10 ^ k`. -/
def tenPower? (k : Nat) : Option Binary64 := nearest? (tenPow k) 1

/-- Multiplies by `10 ^ k` in one step; nothing if the power or the product is too large. -/
def scaleUp? (x : Binary64) (k : Nat) : Option Binary64 :=
  if x.isZero then some x
  else if k ≤ largestTenPower then (tenPower? k).bind x.mul?
  else none

/-- Divides by `10 ^ k`, by the largest power first as often as `k` exceeds it, until nothing is
left of the number. -/
def scaleDown? (x : Binary64) (k : Nat) : Option Binary64 :=
  if x.isZero then some x
  else if k ≤ largestTenPower then (tenPower? k).bind x.div?
  else
    ((tenPower? largestTenPower).bind x.div?).bind fun y => y.scaleDown? (k - largestTenPower)
termination_by k
decreasing_by
  have hpos : 0 < largestTenPower := by decide
  omega

/-- Multiplies by a power of ten, or divides by it if its exponent is negative. -/
def scale? (x : Binary64) (k : Int) : Option Binary64 :=
  if 0 ≤ k then x.scaleUp? k.toNat else x.scaleDown? (-k).toNat

end Binary64

end LayerFlow
