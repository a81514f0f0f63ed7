/-
LayerFlow.Proofs.Layer.Positive

What a layer makes of a shape without zeros.  The checks of a layer refuse exactly the measures that
have no output shape, apart from two that look at a size before it becomes an extent: the units of a
fully connected layer and the factors of an upsampling turn negative from the middle of their range
on, and so does the shape that is made of them.

Main statement: `Layer.outputShape_positive_or_refused`.
-/
import LayerFlow.Proofs.Flow.Resolved
import LayerFlow.Proofs.Layer.Refusals

namespace LayerFlow

/-! ## Positive shapes -/

/-- All four numbers of the shape are positive. -/
def Shape.Positive (s : Shape) : Prop :=
  0 < s.width ∧ 0 < s.height ∧ 0 < s.channels ∧ 0 < s.timeSteps

instance (s : Shape) : Decidable s.Positive := inferInstanceAs (Decidable (_ ∧ _))

theorem Shape.Positive.isResolved {s : Shape} (h : s.Positive) : s.isResolved = true :=
  decide_eq_true (Int.le_of_lt h.1)

/-- Sizes from the middle of their range on are negative extents. -/
theorem Extent.ofSize_neg {n : Nat} (hfits : Size.Fits n) (hlarge : 0x8000000000000000 ≤ n) :
    ofSize n < 0 := by
  unfold Size.Fits at hfits
  unfold ofSize
  rw [Int.bmod_def]
  omega

theorem Extent.ofSize_pos {n : Nat} (hpos : n ≠ 0) (hsmall : n < 0x8000000000000000) :
    0 < ofSize n := by
  rw [ofSize_eq hsmall]
  omega

namespace Layer

/-- The units of a fully connected layer fit a signed extent. -/
def UnitsFit : Layer → Prop
  | .fullyConnected l => l.outUnits < 0x8000000000000000
  | _ => True

variable {l : Layer} {input output : Shape}

/-- Where no size turns negative, a layer makes a positive shape of a positive one. -/
theorem positive_resolvedOutputShape (hunits : l.UnitsFit) (hscales : l.ScalesFit)
    (hinput : input.Positive) (h : l.resolvedOutputShape input = .ok output) :
    output.Positive := by
  rcases resolvedOutputShape_cases h with
    rfl | ⟨l, rfl, h⟩ | ⟨l, rfl, h⟩ | ⟨l, rfl, hne, rfl⟩ | ⟨l, rfl, h⟩
  · exact hinput
  · obtain ⟨hwidth, hheight, hchannels, htime⟩ := Convolution.outputShape_pos h
    exact ⟨hwidth, hheight, hchannels, htime ▸ hinput.2.2.2⟩
  · obtain ⟨hwidth, hheight⟩ := Pooling.outputShape_pos h
    obtain ⟨hchannels, htime⟩ := Pooling.outputShape_channels h
    exact ⟨hwidth, hheight, hchannels ▸ hinput.2.2.1, htime ▸ hinput.2.2.2⟩
  · refine ⟨Int.one_pos, Int.one_pos, ?_, hinput.2.2.2⟩
    dsimp only [UnitsFit] at hunits ⊢
    exact Extent.ofSize_pos hne hunits
  · -- Factors that passed the check are not zero.
    obtain ⟨hx, hy⟩ := not_or.mp ((l.failsFor_outputShape input).ok output h)
    rw [UpSampling.outputShape_eq_withExtent h]
    exact ⟨Int.mul_pos hinput.1 (Extent.ofSize_pos hx hscales.1),
      Int.mul_pos hinput.2.1 (Extent.ofSize_pos hy hscales.2), hinput.2.2⟩

/-- Where a size turns negative, so does the shape that is made of it. -/
theorem exists_neg_of_resolvedOutputShape (hsizes : ∀ n ∈ l.sizes, Size.Fits n)
    (hlarge : ¬ (l.UnitsFit ∧ l.ScalesFit)) (hinput : input.Positive)
    (h : l.resolvedOutputShape input = .ok output) : ∃ n ∈ output.toList, n < 0 := by
  cases l with
  | fullyConnected l =>
    have hunits : 0x8000000000000000 ≤ l.outUnits := by
      simpa [UnitsFit, ScalesFit] using hlarge
    simp only [resolvedOutputShape, FullyConnected.outputShape] at h
    split at h
    · cases h
    · cases h
      exact ⟨_, by simp [Shape.toList], Extent.ofSize_neg (hsizes _ (by simp [sizes])) hunits⟩
  | upSampling l =>
    obtain ⟨hx, hy⟩ : Size.Fits l.scaleX ∧ Size.Fits l.scaleY := by simpa [sizes] using hsizes
    have hscales : 0x8000000000000000 ≤ l.scaleX ∨ 0x8000000000000000 ≤ l.scaleY := by
      simp only [UnitsFit, ScalesFit, true_and] at hlarge
      omega
    rw [UpSampling.outputShape_eq_withExtent h]
    rcases hscales with hscale | hscale
    · exact ⟨_, List.mem_cons_self,
        Int.mul_neg_of_pos_of_neg hinput.1 (Extent.ofSize_neg hx hscale)⟩
    · exact ⟨_, List.mem_cons_of_mem _ List.mem_cons_self,
        Int.mul_neg_of_pos_of_neg hinput.2.1 (Extent.ofSize_neg hy hscale)⟩
  | _ => exact absurd ⟨trivial, trivial⟩ hlarge

/-- A layer makes a positive shape of a positive one, and a known one at that, or refuses it: with
measures that have no output shape for it the layer is at fault and is named, and otherwise a number
on the way leaves the range of the machine.  The exception are units of a fully connected layer and
factors of an upsampling from the middle of their range on, of which it makes a shape with a
negative number. -/
theorem outputShape_positive_or_refused (l : Layer) {input : Shape}
    (hsizes : ∀ n ∈ l.sizes, Size.Fits n) (hinput : input.Positive) :
    (∀ output, l.outputShape input = .ok output → ¬ l.Unfit input ∧
      (l.UnitsFit ∧ l.ScalesFit → output.Positive ∧ output.isResolved = true) ∧
      (¬ (l.UnitsFit ∧ l.ScalesFit) → ∃ n ∈ output.toList, n < 0)) ∧
    ∀ e, l.outputShape input = .error e →
      (l.Unfit input ∧ ∃ fault, e = .shape l.name fault) ∨ (l.Overruns input ∧ e = .overflow) := by
  rw [outputShape, if_pos hinput.isResolved]
  have hfails := l.failsFor_resolvedOutputShape input
  refine ⟨fun output h => ⟨hfails.ok output h, fun hfit => ?_, fun hlarge => ?_⟩, hfails.error⟩
  · have hpositive := positive_resolvedOutputShape hfit.1 hfit.2 hinput h
    exact ⟨hpositive, hpositive.isResolved⟩
  · exact exists_neg_of_resolvedOutputShape hsizes hlarge hinput h

/-- A pooling with a dilated window makes a positive shape; with as many units as the machine can
count, a fully connected layer has a negative number of channels. -/
theorem outputShape_positive_or_refused_dilated :
    let pooling : Layer := .pooling ⟨.dilatedMax 2, 3, 3, 1, 1, .validOnly⟩
    let dense : Layer := .fullyConnected ⟨0xffffffffffffffff, true⟩
    let input : Shape := ⟨9, 9, 2, 1⟩
    input.Positive ∧
    ((∀ n ∈ pooling.sizes, Size.Fits n) ∧ pooling.outputShape input = .ok ⟨5, 5, 2, 1⟩ ∧
      ¬ pooling.Unfit input ∧ (⟨5, 5, 2, 1⟩ : Shape).Positive) ∧
    (∀ n ∈ dense.sizes, Size.Fits n) ∧ dense.outputShape input = .ok ⟨1, 1, -1, 1⟩ ∧
      ∃ n ∈ (⟨1, 1, -1, 1⟩ : Shape).toList, n < 0 := by
  intro pooling dense input
  have hinput : input.Positive := by decide
  have hsizes : ∀ n ∈ pooling.sizes, Size.Fits n := by decide
  have hsizes' : ∀ n ∈ dense.sizes, Size.Fits n := by decide
  have hmade : pooling.outputShape input = .ok ⟨5, 5, 2, 1⟩ := by rfl
  have hmade' : dense.outputShape input = .ok ⟨1, 1, -1, 1⟩ := by rfl
  obtain ⟨hpooling, -⟩ := outputShape_positive_or_refused pooling hsizes hinput
  obtain ⟨hdense, -⟩ := outputShape_positive_or_refused dense hsizes' hinput
  obtain ⟨hfit, hpositive, -⟩ := hpooling _ hmade
  obtain ⟨-, -, hnegative⟩ := hdense _ hmade'
  exact ⟨hinput, ⟨hsizes, hmade, hfit, (hpositive ⟨trivial, trivial⟩).1⟩, hsizes', hmade',
    hnegative fun hfits => absurd hfits.1 (by simp [dense, UnitsFit])⟩

/-- Of a known shape without zeros, an upsampling by the largest factors makes one that counts as
not known. -/
theorem outputShape_negative_of_large_factors :
    let l : Layer := .upSampling ⟨.nearest, 0xffffffffffffffff, 0xffffffffffffffff⟩
    let input : Shape := ⟨4, 4, 3, 1⟩
    (∀ n ∈ l.sizes, Size.Fits n) ∧ input.Positive ∧ l.outputShape input = .ok ⟨-4, -4, 3, 1⟩ ∧
      (⟨-4, -4, 3, 1⟩ : Shape).isResolved = false ∧ ¬ (⟨-4, -4, 3, 1⟩ : Shape).Positive :=
  ⟨by decide, by decide, rfl, rfl, by decide⟩

end Layer

end LayerFlow
