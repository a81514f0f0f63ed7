/-
LayerFlow.Padding

How far a sliding window reaches over the border, and how many positions it takes.

Main statements: `extent_of_nonpos` and `extent_of_shorter`, windows that do not fit, and
`ceilDiv_eq`, the quotient rounded up.
-/
import LayerFlow.Outcome
import LayerFlow.Shape

namespace LayerFlow

/-! ## Policies -/

/-- What a window may do at the border. -/
inductive PaddingMode where
  /-- It stays inside. -/
  | validOnly
  /-- It is centred on every position. -/
  | sizeSame
  /-- It touches the input in one position at least. -/
  | sizeFull
  /-- It stays inside, and the layer may adjust the result. -/
  | custom
deriving DecidableEq, Repr

/-- A padding mode for each axis. -/
structure PaddingPolicy where
  x : PaddingMode
  y : PaddingMode
  feature : PaddingMode
deriving DecidableEq, Repr

namespace PaddingPolicy

/-- One mode for all axes. -/
def uniform (mode : PaddingMode) : PaddingPolicy := ⟨mode, mode, mode⟩

/-- The window stays inside on every axis. -/
def validOnly : PaddingPolicy := uniform .validOnly

/-- The window is centred on every position. -/
def sizeSame : PaddingPolicy := uniform .sizeSame

/-- The window touches the input. -/
def sizeFull : PaddingPolicy := uniform .sizeFull

/-- The mode of an axis. -/
def mode (p : PaddingPolicy) : Axis → PaddingMode
  | .x => p.x
  | .y => p.y
  | .feature => p.feature

end PaddingPolicy

/-! ## Windows -/

/-- A window of size `kernel` that slides by `stride` over an extent of `input`. -/
structure Window where
  axis : Axis
  input : Int
  kernel : Int
  stride : Int
deriving DecidableEq, Repr

/-- The quotient rounded up, as a machine computes it: the numerator grows first, step by step. -/
def ceilDiv (numerator denominator : Int) : Except Failure Int := do
  let grown ← Extent.add numerator denominator
  let last ← Extent.sub grown 1
  return last.tdiv denominator

namespace PaddingMode

/-- The number of positions of a window with positive sizes, or nothing if it does not fit. -/
def positions (mode : PaddingMode) (w : Window) : Except Failure (Option Int) :=
  match mode with
  | .validOnly | .custom =>
    if w.input < w.kernel then .ok none
    else .ok (some ((w.input - w.kernel).tdiv w.stride + 1))
  | .sizeSame => do
    let extent ← ceilDiv w.input w.stride
    return some extent
  | .sizeFull => do
    let grown ← Extent.add w.input w.kernel
    let reach ← Extent.sub grown 1
    let extent ← ceilDiv reach w.stride
    return some extent

end PaddingMode

namespace PaddingPolicy

/-- The final extent for a suggested one.  No layer adjusts it yet, in any mode. -/
def resolvedExtent (_p : PaddingPolicy) (suggested : Int) (_w : Window) : Int := suggested

/-- What is logged when the final extent of a window is settled: only custom axes are. -/
def extentNotes (p : PaddingPolicy) (layer : String) (suggested : Int) (w : Window) :
    List LogLine :=
  if p.mode w.axis = .custom then
    [.debug s!"{layer}: custom {w.axis.name} extent {suggested}"]
  else []

/-- The output extent along the axis of a window, or nothing if the window does not fit. -/
def extent (p : PaddingPolicy) (w : Window) : Except Failure (Option Int) :=
  if w.kernel ≤ 0 ∨ w.stride ≤ 0 ∨ w.input ≤ 0 then .ok none
  else do
    let suggested ← (p.mode w.axis).positions w
    return suggested.bind fun n =>
      let resolved := p.resolvedExtent n w
      if 0 < resolved then some resolved else none

/-- What is logged while the output extent of a window is computed. -/
def windowNotes (p : PaddingPolicy) (layer : String) (w : Window) : List LogLine :=
  match p.extent w with
  | .ok (some n) => p.extentNotes layer n w
  | _ => []

/-- What is logged while several windows are computed one after the other; a window that does
not fit, or whose size overflows, ends the series. -/
def seriesNotes (p : PaddingPolicy) (layer : String) : List (Except Failure Window) →
    List LogLine
  | [] => []
  | .error _ :: _ => []
  | .ok w :: rest =>
    match p.extent w with
    | .ok (some n) => p.extentNotes layer n w ++ p.seriesNotes layer rest
    | _ => []

/-! ## Laws -/

/-- Without a positive size there is no extent. -/
theorem extent_of_nonpos {p : PaddingPolicy} {w : Window}
    (h : w.kernel ≤ 0 ∨ w.stride ≤ 0 ∨ w.input ≤ 0) : p.extent w = .ok none := by
  simp [extent, h]

/-- A window that has to stay inside does not fit on a shorter input. -/
theorem extent_of_shorter {p : PaddingPolicy} {w : Window}
    (hmode : p.mode w.axis = .validOnly ∨ p.mode w.axis = .custom)
    (h : w.input < w.kernel) : p.extent w = .ok none := by
  rw [extent]
  split
  · rfl
  · rcases hmode with hmode | hmode <;> rw [hmode, PaddingMode.positions, if_pos h] <;> rfl

/-- The quotient rounded up, if the steps fit. -/
theorem ceilDiv_eq {a b : Int} (ha : 0 < a) (hb : 0 < b) (hadd : Extent.Fits (a + b)) :
    ceilDiv a b = .ok ((a - 1) / b + 1) := by
  have hsub : Extent.Fits (a + b - 1) := by
    unfold Extent.Fits at *
    omega
  -- One whole `b` can be taken out of the numerator.
  have hdiv : (a + b - 1).tdiv b = (a - 1) / b + 1 := by
    rw [Int.tdiv_eq_ediv_of_nonneg (by omega), show a + b - 1 = a - 1 + 1 * b by omega,
      Int.add_mul_ediv_right _ _ (by omega)]
  simp [ceilDiv, Extent.add, Extent.sub, Extent.check_of_fits hadd, Extent.check_of_fits hsub,
    hdiv, bind, Except.bind, pure, Except.pure]

end PaddingPolicy

end LayerFlow
