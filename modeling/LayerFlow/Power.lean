/-
LayerFlow.Power

Powers of two and of ten, as natural numbers.

Main statements: `twoPow_pos` and `tenPow_pos`, and the steps `twoPow_succ` and `tenPow_succ`.
-/

namespace LayerFlow

/-- Two, multiplied by itself this many times. -/
def twoPow (n : Nat) : Nat := Nat.pow 2 n

/-- Ten, multiplied by itself this many times. -/
def tenPow (n : Nat) : Nat := Nat.pow 10 n

@[simp] theorem twoPow_zero : twoPow 0 = 1 := rfl

@[simp] theorem tenPow_zero : tenPow 0 = 1 := rfl

theorem twoPow_succ (n : Nat) : twoPow (n + 1) = twoPow n * 2 := rfl

theorem tenPow_succ (n : Nat) : tenPow (n + 1) = tenPow n * 10 := rfl

theorem twoPow_pos (n : Nat) : 0 < twoPow n := by
  induction n with
  | zero => decide
  | succ n ih =>
    rw [twoPow_succ]
    omega

theorem tenPow_pos (n : Nat) : 0 < tenPow n := by
  induction n with
  | zero => decide
  | succ n ih =>
    rw [tenPow_succ]
    omega

end LayerFlow
