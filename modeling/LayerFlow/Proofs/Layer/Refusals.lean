/-
LayerFlow.Proofs.Layer.Refusals

Why a layer has no output shape.  Every layer checks its measures and then computes with checked
numbers, so there are two reasons: measures that have no output shape for the input, at which the
layer is named, and a number on the way that leaves the range of the machine.

Main statement: `Layer.failsFor_resolvedOutputShape`.
-/
import LayerFlow.Layer
import LayerFlow.Proofs.Fusion.Sizes
import LayerFlow.Proofs.Padding.Positions

namespace LayerFlow

open Traversal

/-! ## Computations that fail for a reason -/

/-- The computation is refused, at the place, for the first reason only, and never succeeds if that
holds; it overflows for the second reason only. -/
structure FailsFor {α : Type} (place : String) (refused overrun : Prop) (x : Except Failure α) :
    Prop where
  ok : ∀ a, x = .ok a → ¬ refused
  error : ∀ e, x = .error e →
    (refused ∧ ∃ fault, e = .shape place fault) ∨ (overrun ∧ e = .overflow)

section

variable {α β : Type} {place : String} {refused refused' overrun overrun' : Prop}

theorem failsFor_ok (a : α) : FailsFor place False False (.ok a) where
  ok _ _ := id
  error := by rintro e ⟨⟩

theorem failsFor_shape (fault : ShapeFault) :
    FailsFor place True False (.error (.shape place fault) : Except Failure α) where
  ok := by rintro a ⟨⟩
  error := by
    rintro e ⟨⟩
    exact .inl ⟨trivial, fault, rfl⟩

theorem FailsFor.imp {x : Except Failure α} (h : FailsFor place refused overrun x)
    (hrefused : refused ↔ refused') (hoverrun : overrun → overrun') :
    FailsFor place refused' overrun' x where
  ok a ha := mt hrefused.mpr (h.ok a ha)
  error e he := (h.error e he).imp (And.imp_left hrefused.mp) (And.imp_left hoverrun)

theorem failsFor_bind {x : Except Failure α} {f : α → Except Failure β}
    (hx : FailsFor place refused overrun x)
    (hf : ∀ a, x = .ok a → FailsFor place refused' overrun' (f a)) :
    FailsFor place (refused ∨ refused') (overrun ∨ overrun') (x >>= f) where
  ok b hb := by
    obtain ⟨a, ha, hrest⟩ := bind_eq_ok_iff.mp hb
    exact not_or.mpr ⟨hx.ok a ha, (hf a ha).ok b hrest⟩
  error e he := by
    rcases bind_eq_error_iff.mp he with hfirst | ⟨a, ha, hrest⟩
    · exact (hx.error e hfirst).imp (And.imp_left .inl) (And.imp_left .inl)
    · exact ((hf a ha).error e hrest).imp (And.imp_left .inr) (And.imp_left .inr)

/-- A check in front of a computation is one more reason to refuse it. -/
theorem failsFor_guard {c : Prop} [Decidable c] {fault : ShapeFault} {x : Except Failure α}
    (hx : FailsFor place refused overrun x) :
    FailsFor place (c ∨ refused) overrun
      (if c then .error (.shape place fault) else x) := by
  split
  · next hc => exact (failsFor_shape fault).imp (by simp [hc]) False.elim
  · next hc => exact hx.imp (by simp [hc]) id

theorem failsFor_check (n : Int) : FailsFor place False (¬ Extent.Fits n) (Extent.check n) where
  ok _ _ := id
  error _ he := .inr (Extent.check_eq_error_iff.mp he)

end

/-- A window that does not fit is refused, and one that does overflows only on the way to its
extent. -/
theorem PaddingPolicy.failsFor_extent (p : PaddingPolicy) (w : Window) (place : String)
    (fault : ShapeFault) : FailsFor place (p.Misfits w) (p.Overruns w)
      (p.extent w >>= fun
        | some n => .ok n
        | none => .error (.shape place fault)) where
  ok n hn := by
    obtain ⟨found, hfound, hrest⟩ := bind_eq_ok_iff.mp hn
    cases found with
    | some m => exact (extent_eq_some hfound).1
    | none => cases hrest
  error e he := by
    rcases bind_eq_error_iff.mp he with hfirst | ⟨found, hfound, hrest⟩
    · exact .inr (extent_eq_error hfirst).symm
    · cases found with
      | some m => cases hrest
      | none =>
        cases hrest
        exact .inl ⟨extent_eq_none_iff.mp hfound, fault, rfl⟩

/-! ## Measures without an output shape -/

/-- A kernel or a stride is zero, there are no output channels, or a window does not fit. -/
def Convolution.Unfit (l : Convolution) (input : Shape) : Prop :=
  (l.kernelWidth = 0 ∨ l.kernelHeight = 0 ∨ l.strideX = 0 ∨ l.strideY = 0) ∨
    l.outputChannels input ≤ 0 ∨
    l.padding.Misfits (l.window input .x) ∨ l.padding.Misfits (l.window input .y)

/-- The number of output channels, or a number on the way to an extent, leaves the range. -/
def Convolution.Overruns (l : Convolution) (input : Shape) : Prop :=
  ¬ Extent.Fits (l.outputChannels input) ∨
    l.padding.Overruns (l.window input .x) ∨ l.padding.Overruns (l.window input .y)

/-- A kernel, a stride or the dilation is zero, or a window does not fit. -/
def Pooling.Unfit (l : Pooling) (input : Shape) : Prop :=
  (l.kernelWidth = 0 ∨ l.kernelHeight = 0 ∨ l.strideX = 0 ∨ l.strideY = 0) ∨
    l.kind = .dilatedMax 0 ∨
    (∃ w, l.window input .x = .ok w ∧ l.padding.Misfits w) ∨
    ∃ w, l.window input .y = .ok w ∧ l.padding.Misfits w

/-- A window is too large to be one once it is pulled apart, or a number on the way to its extent
leaves the range. -/
def Pooling.Overruns (l : Pooling) (input : Shape) : Prop :=
  (∀ w, l.window input .x = .ok w → l.padding.Overruns w) ∨
    ∀ w, l.window input .y = .ok w → l.padding.Overruns w

namespace Layer

/-- The measures of the layer have no output shape for the input. -/
def Unfit (l : Layer) (input : Shape) : Prop :=
  match l with
  | .arithmetic l => l.operation = .divide ∧ l.operand.isZero = true
  | .convolution l => l.Unfit input
  | .pooling l => l.Unfit input
  | .fullyConnected l => l.outUnits = 0
  | .normalization l => l.emptyKernel = true ∨ l.epsilon.lt .zero = true
  | .upSampling l => l.scaleX = 0 ∨ l.scaleY = 0
  | .dropOut l => ¬ (Binary32.zero.lt l.keepProbability && l.keepProbability.le .one) = true
  | .neuron _ | .softMax _ => False

/-- A number on the way to the output shape leaves the range of the machine. -/
def Overruns (l : Layer) (input : Shape) : Prop :=
  match l with
  | .convolution l => l.Overruns input
  | .pooling l => l.Overruns input
  | .upSampling l =>
    ¬ Extent.Fits (input.width * Extent.ofSize l.scaleX) ∨
      ¬ Extent.Fits (input.height * Extent.ofSize l.scaleY)
  | _ => False

end Layer

/-! ## How layers fail -/

theorem Convolution.failsFor_checkedChannels (l : Convolution) (input : Shape) :
    FailsFor l.name
      ((l.kernelWidth = 0 ∨ l.kernelHeight = 0 ∨ l.strideX = 0 ∨ l.strideY = 0) ∨
        l.outputChannels input ≤ 0)
      (¬ Extent.Fits (l.outputChannels input)) (l.checkedChannels input) := by
  have hpositive : ∀ channels, Extent.check (l.outputChannels input) = .ok channels →
      FailsFor l.name (l.outputChannels input ≤ 0) False
        (if channels ≤ 0 then .error (.shape l.name .noOutputChannels) else .ok channels) := by
    intro channels hchecked
    obtain ⟨-, rfl⟩ := Extent.check_eq_ok_iff.mp hchecked
    exact (failsFor_guard (failsFor_ok _)).imp (or_iff_left id) id
  have hchecked := failsFor_bind (failsFor_check (l.outputChannels input)) hpositive
  exact failsFor_guard (hchecked.imp (or_iff_right id) (or_iff_left id).mp)

theorem Convolution.failsFor_outputShape (l : Convolution) (input : Shape) :
    FailsFor l.name (l.Unfit input) (l.Overruns input) (l.outputShape input) := by
  refine FailsFor.imp (failsFor_bind (l.failsFor_checkedChannels input) fun channels _ =>
    failsFor_bind (l.padding.failsFor_extent (l.window input .x) l.name _) fun width _ =>
      failsFor_bind (l.padding.failsFor_extent (l.window input .y) l.name _) fun height _ =>
        failsFor_ok _) ?_ ?_
  · rw [Unfit, or_false, or_assoc]
  · rw [Overruns, or_false]
    exact id

theorem Pooling.overflowsOnly_window (l : Pooling) (input : Shape) (axis : Axis) :
    OverflowsOnly (l.window input axis) := by
  have hkernel : ∀ kernel, OverflowsOnly (l.effectiveKernel kernel) := by
    intro kernel
    rw [effectiveKernel]
    split
    · exact overflowsOnly_bind (Size.overflowsOnly_check _) fun _ => Size.overflowsOnly_check _
    · exact overflowsOnly_ok kernel
  cases axis <;> exact overflowsOnly_bind (hkernel _) fun _ => overflowsOnly_ok _

/-- A window that is too large once it is pulled apart overflows as one on the way to its extent. -/
theorem Pooling.failsFor_window {α : Type} (l : Pooling) (input : Shape) (axis : Axis)
    (kernel : Nat) {refused overrun : Prop} {rest : Int → Except Failure α}
    (hrest : ∀ n, FailsFor l.name refused overrun (rest n)) :
    FailsFor l.name ((∃ w, l.window input axis = .ok w ∧ l.padding.Misfits w) ∨ refused)
      ((∀ w, l.window input axis = .ok w → l.padding.Overruns w) ∨ overrun)
      (l.window input axis >>= fun w => l.extent kernel w >>= rest) := by
  cases hwindow : l.window input axis with
  | error e =>
    -- There is no window to speak of, so the second reason holds of all of them.
    obtain rfl := l.overflowsOnly_window input axis e hwindow
    constructor
    · rintro a ⟨⟩
    · rintro e ⟨⟩
      exact .inr ⟨.inl (by rintro w ⟨⟩), rfl⟩
  | ok w =>
    refine (failsFor_bind (l.padding.failsFor_extent w l.name _) fun n _ => hrest n).imp ?_ ?_
    · simp
    · simp

theorem Pooling.failsFor_outputShape (l : Pooling) (input : Shape) :
    FailsFor l.name (l.Unfit input) (l.Overruns input) (l.outputShape input) := by
  have hcheck : FailsFor l.name
      ((l.kernelWidth = 0 ∨ l.kernelHeight = 0 ∨ l.strideX = 0 ∨ l.strideY = 0) ∨
        l.kind = .dilatedMax 0) False l.check :=
    (failsFor_guard (failsFor_guard (failsFor_ok ()))).imp (by rw [or_false]) id
  refine FailsFor.imp (failsFor_bind hcheck fun _ _ =>
    l.failsFor_window input .x l.kernelWidth fun width =>
      l.failsFor_window input .y l.kernelHeight fun height => failsFor_ok _) ?_ ?_
  · rw [Unfit, or_false, or_assoc]
  · rw [Overruns, or_false, false_or]
    exact id

theorem UpSampling.failsFor_outputShape (l : UpSampling) (input : Shape) :
    FailsFor l.name (l.scaleX = 0 ∨ l.scaleY = 0)
      (¬ Extent.Fits (input.width * Extent.ofSize l.scaleX) ∨
        ¬ Extent.Fits (input.height * Extent.ofSize l.scaleY)) (l.outputShape input) := by
  refine FailsFor.imp (failsFor_guard (failsFor_bind (failsFor_check _) fun width _ =>
    failsFor_bind (failsFor_check _) fun height _ => failsFor_ok _)) ?_ ?_
  · rw [or_false, or_false, or_false]
  · rw [or_false]
    exact id

namespace Layer

/-- A layer refuses a shape exactly if its measures have no output shape for it, unless a number on
the way leaves the range. -/
theorem failsFor_resolvedOutputShape (l : Layer) (input : Shape) :
    FailsFor l.name (l.Unfit input) (l.Overruns input) (l.resolvedOutputShape input) := by
  cases l with
  | arithmetic l => exact (failsFor_guard (failsFor_ok input)).imp (or_iff_left id) id
  | convolution l => exact l.failsFor_outputShape input
  | pooling l => exact l.failsFor_outputShape input
  | fullyConnected l => exact (failsFor_guard (failsFor_ok _)).imp (or_iff_left id) id
  | neuron l => exact failsFor_ok input
  | softMax l => exact failsFor_ok input
  | normalization l =>
    exact (failsFor_guard (failsFor_guard (failsFor_ok input))).imp
      (or_congr_right (or_iff_left id)) id
  | upSampling l => exact l.failsFor_outputShape input
  | dropOut l =>
    -- This check is written the other way round: it says what is accepted.
    have hchecked : FailsFor l.name
        (¬ (Binary32.zero.lt l.keepProbability && l.keepProbability.le .one) = true) False
        (l.outputShape input) := by
      rw [DropOut.outputShape, ← ite_not]
      exact (failsFor_guard (failsFor_ok input)).imp (or_iff_left id) id
    exact hchecked

end Layer

end LayerFlow
