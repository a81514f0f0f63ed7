/-
LayerFlow.Binary32

Single-precision numbers as their 32 bits.  Structural equality (`=`) compares bits; the
arithmetic comparisons `eqv`, `lt` and `le` follow the standard: no comparison with a NaN
holds, and the two zeros are equal.

Main statements: `eqv_self_iff`, the comparison of a number with itself fails only for a NaN,
and `lt_irrefl`.
-/

namespace LayerFlow

/-- A single-precision number, given by its bits: sign, eight of exponent, 23 of fraction. -/
structure Binary32 where
  bits : UInt32
deriving DecidableEq, Repr

namespace Binary32

/-! ## Fields -/

/-- Whether the sign bit is set. -/
def negative (x : Binary32) : Bool := 0x80000000 ≤ x.bits.toNat

/-- The bits without the sign; among numbers of one sign they grow with the absolute value. -/
def magnitude (x : Binary32) : Nat := x.bits.toNat % 0x80000000

/-- The eight bits of the exponent. -/
def exponentField (x : Binary32) : Nat := x.magnitude / 0x800000

/-- The 23 bits of the fraction. -/
def fraction (x : Binary32) : Nat := x.magnitude % 0x800000

/-- Neither an infinity nor a NaN. -/
def isFinite (x : Binary32) : Bool := x.exponentField != 255

/-- Not a number. -/
def isNaN (x : Binary32) : Bool := x.exponentField == 255 && x.fraction != 0

/-- One of the two zeros. -/
def isZero (x : Binary32) : Bool := x.magnitude == 0

/-- The whole number `m` of a finite value `± m · 2 ^ e`. -/
def significand (x : Binary32) : Nat :=
  if x.exponentField = 0 then x.fraction else x.fraction + 0x800000

/-- The exponent `e` of a finite value `± m · 2 ^ e`. -/
def exponent (x : Binary32) : Int := max x.exponentField 1 - 150

/-! ## Constants -/

/-- Positive zero. -/
def zero : Binary32 := ⟨0⟩

/-- One. -/
def one : Binary32 := ⟨0x3f800000⟩

/-- The usual NaN. -/
def nan : Binary32 := ⟨0x7fc00000⟩

/-- An infinity of either sign. -/
def infinity (negative : Bool) : Binary32 := ⟨if negative then 0xff800000 else 0x7f800000⟩

/-- The number with the given sign and the given bits below the sign. -/
def ofMagnitude (negative : Bool) (magnitude : Nat) : Binary32 :=
  ⟨UInt32.ofNat (if negative then magnitude + 0x80000000 else magnitude)⟩

/-! ## Comparisons -/

/-- The magnitude with its sign: an order key on which both zeros are 0. -/
def key (x : Binary32) : Int :=
  if x.negative then -(x.magnitude : Int) else x.magnitude

/-- Equality as numbers: false for a NaN, true for the two zeros. -/
def eqv (x y : Binary32) : Bool := !x.isNaN && !y.isNaN && x.key == y.key

/-- Strictly less; false if either is a NaN. -/
def lt (x y : Binary32) : Bool := !x.isNaN && !y.isNaN && decide (x.key < y.key)

/-- Less or equal; false if either is a NaN. -/
def le (x y : Binary32) : Bool := !x.isNaN && !y.isNaN && decide (x.key ≤ y.key)

/-- Only a NaN differs from itself. -/
theorem eqv_self_iff (x : Binary32) : x.eqv x = true ↔ x.isNaN = false := by
  simp [eqv]

/-- Equality as numbers is symmetric. -/
theorem eqv_comm (x y : Binary32) : x.eqv y = y.eqv x := by
  simp only [eqv, Bool.beq_comm (a := x.key)]
  cases x.isNaN <;> cases y.isNaN <;> rfl

/-- No number is less than itself. -/
theorem lt_irrefl (x : Binary32) : x.lt x = false := by
  simp [lt]

end Binary32

end LayerFlow
