/-
LayerFlow.Checked

Arithmetic in the ranges of the machine: extents are signed 64-bit integers, sizes are
unsigned 64-bit integers.  Each single step is checked, so a product of three factors can
overflow even if its last factor is zero.

Main statements: a checked step answers with the exact number (`Extent.check_eq_ok_iff`,
`Size.check_eq_ok_iff`) or fails with `overflow`, and a size that is small enough becomes the
same extent (`Extent.ofSize_eq`).
-/
import LayerFlow.Failure

namespace LayerFlow

/-! ## Signed extents -/

namespace Extent

/-- Whether a whole number fits in 64 bits with sign. -/
def Fits (n : Int) : Prop := -0x8000000000000000 ≤ n ∧ n < 0x8000000000000000

instance (n : Int) : Decidable (Fits n) := inferInstanceAs (Decidable (_ ∧ _))

/-- The number itself, if it fits. -/
def check (n : Int) : Except Failure Int :=
  if Fits n then .ok n else .error .overflow

theorem check_eq_ok_iff {n m : Int} : check n = .ok m ↔ Fits n ∧ m = n := by
  unfold check
  split <;> simp_all [eq_comm]

theorem check_of_fits {n : Int} (h : Fits n) : check n = .ok n := by
  simp [check, h]

/-- A checked sum. -/
def add (a b : Int) : Except Failure Int := check (a + b)

/-- A checked difference. -/
def sub (a b : Int) : Except Failure Int := check (a - b)

/-- A checked product. -/
def mul (a b : Int) : Except Failure Int := check (a * b)

/-- The signed number with the same 64 bits as a size; sizes from `2 ^ 63` on become negative. -/
def ofSize (n : Nat) : Int := Int.bmod n 0x10000000000000000

/-- A size below `2 ^ 63` is kept. -/
theorem ofSize_eq {n : Nat} (h : n < 0x8000000000000000) : ofSize n = n := by
  unfold ofSize
  rw [Int.bmod_eq_of_le] <;> omega

end Extent

/-! ## Unsigned sizes -/

namespace Size

/-- Whether a natural number fits in 64 bits. -/
def Fits (n : Nat) : Prop := n < 0x10000000000000000

instance (n : Nat) : Decidable (Fits n) := inferInstanceAs (Decidable (_ < _))

/-- The number itself, if it fits. -/
def check (n : Nat) : Except Failure Nat :=
  if Fits n then .ok n else .error .overflow

theorem check_eq_ok_iff {n m : Nat} : check n = .ok m ↔ Fits n ∧ m = n := by
  unfold check
  split <;> simp_all [eq_comm]

theorem check_of_fits {n : Nat} (h : Fits n) : check n = .ok n := by
  simp [check, h]

/-- A checked sum. -/
def add (a b : Nat) : Except Failure Nat := check (a + b)

/-- A checked product. -/
def mul (a b : Nat) : Except Failure Nat := check (a * b)

/-- A checked sum of a list, first to last. -/
def sum (ns : List Nat) : Except Failure Nat := ns.foldlM add 0

/-- The size with the value of an extent; a negative extent counts as zero. -/
def ofExtent (n : Int) : Nat := n.toNat

end Size

end LayerFlow
