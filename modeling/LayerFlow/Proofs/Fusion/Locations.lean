/-
LayerFlow.Proofs.Fusion.Locations

Where the channels of stacked sources lie.  The stack is laid out with a running offset that is
rounded up after every source; since the offset is a multiple of the alignment at every source,
rounding it up is rounding up the number of channels of that source alone.  So each source can be
found by counting the padded sources before it, and what lies between two sources is the padding of
the first one.

Main statement: `FusionPlan.withAlignment_exact`, the plan of a fusion source by source, and when
there is none.
-/
import LayerFlow.Proofs.Fusion.Sizes
import Mathlib.Order.Bounds.Basic

namespace LayerFlow

open Traversal

/-! ## Rounding up -/

/-- The padded number of channels is the least multiple of the alignment that has room for them. -/
theorem isLeast_paddedCount {alignment : Nat} (halign : 0 < alignment) (count : Nat) :
    IsLeast {size | alignment ∣ size ∧ count ≤ size} (paddedCount alignment count) := by
  refine ⟨⟨dvd_paddedCount alignment count, le_paddedCount halign count⟩, ?_⟩
  rintro _ ⟨⟨k, rfl⟩, hle⟩
  -- The quotient rounded up is at most `k`, because `count` is at most `k` alignments.
  have hquotient : (count + alignment - 1) / alignment ≤ k := by
    apply Nat.lt_succ_iff.mp
    rw [Nat.div_lt_iff_lt_mul halign, Nat.succ_mul, Nat.mul_comm k]
    omega
  rw [paddedCount, Nat.mul_comm alignment]
  exact Nat.mul_le_mul_right alignment hquotient

/-! ## Places -/

/-- The places of the channels of sources that lie side by side from an offset on, each followed by
its padding. -/
def places (alignment : Nat) : (offset : Nat) → (counts : List Nat) → List Nat
  | _, [] => []
  | offset, count :: counts =>
    List.range' offset count ++ places alignment (offset + paddedCount alignment count) counts

/-- Where a source starts: behind the padded sources before it. -/
def sourceStart (alignment : Nat) (counts : List Nat) (source : Nat) : Nat :=
  ((counts.take source).map (paddedCount alignment)).sum

section

variable {alignment offset count source : Nat} {counts : List Nat}

@[simp] theorem sourceStart_zero : sourceStart alignment counts 0 = 0 := rfl

@[simp] theorem sourceStart_cons_succ :
    sourceStart alignment (count :: counts) (source + 1) =
      paddedCount alignment count + sourceStart alignment counts source := by
  simp [sourceStart]

/-- From a multiple of the alignment on, a running offset and a sum over the sources before lead to
the same places. -/
theorem layout_eq_places {found : List Nat} {total : Nat} (halign : 0 < alignment)
    (hoffset : alignment ∣ offset) (h : layout alignment counts offset = .ok (found, total)) :
    found = places alignment offset counts := by
  induction counts generalizing offset found with
  | nil =>
    cases h
    rfl
  | cons count counts ih =>
    obtain ⟨next, rest, hnext, hrest, rfl⟩ := layout_cons h
    obtain rfl := alignUp_eq_ok hnext
    rw [ih (dvd_paddedCount _ _) hrest, paddedCount_add halign hoffset, places]

/-- A channel of a source is found from the start of the source on. -/
theorem getElem?_places (alignment offset : Nat) {channel : Nat}
    (hcount : counts[source]? = some count) (hchannel : channel < count) :
    (places alignment offset counts)[(counts.take source).sum + channel]? =
      some (offset + sourceStart alignment counts source + channel) := by
  induction counts generalizing offset source with
  | nil => simp at hcount
  | cons first counts ih =>
    rw [places]
    cases source with
    | zero =>
      obtain rfl : first = count := by simpa using hcount
      have hlength : channel < (List.range' offset first).length := by simpa using hchannel
      rw [List.take_zero, List.sum_nil, Nat.zero_add, List.getElem?_append_left hlength,
        List.getElem?_range' hchannel]
      simp
    | succ source =>
      rw [List.take_succ_cons, List.sum_cons, Nat.add_assoc,
        List.getElem?_append_right (by simp), List.length_range', Nat.add_sub_cancel_left,
        ih _ (by simpa using hcount), sourceStart_cons_succ, Nat.add_assoc offset]

/-- Every place lies in the stack, and behind the offset it starts from. -/
theorem mem_places_bounds (halign : 0 < alignment) {place : Nat}
    (h : place ∈ places alignment offset counts) :
    offset ≤ place ∧ place < offset + (counts.map (paddedCount alignment)).sum := by
  induction counts generalizing offset with
  | nil => simp [places] at h
  | cons count counts ih =>
    rw [List.map_cons, List.sum_cons]
    have hpadded := le_paddedCount halign count
    rcases List.mem_append.mp h with hfirst | hrest
    · have hrange := List.mem_range'_1.mp hfirst
      omega
    · have hbounds := ih hrest
      omega

theorem pairwise_places (halign : 0 < alignment) (offset : Nat) (counts : List Nat) :
    (places alignment offset counts).Pairwise (· < ·) := by
  induction counts generalizing offset with
  | nil => exact .nil
  | cons count counts ih =>
    rw [places, List.pairwise_append]
    refine ⟨List.pairwise_lt_range', ih _, fun place hplace later hlater => ?_⟩
    -- The source ends before the next one starts.
    have hrange := List.mem_range'_1.mp hplace
    have hbounds := mem_places_bounds halign hlater
    have hpadded := le_paddedCount halign count
    omega

/-- A slot of the stack that no channel has is padding behind a source. -/
theorem not_mem_places_iff (halign : 0 < alignment) (offset : Nat) (counts : List Nat)
    {slot : Nat} :
    (offset ≤ slot ∧ slot < offset + (counts.map (paddedCount alignment)).sum ∧
      slot ∉ places alignment offset counts) ↔
    ∃ source count, counts[source]? = some count ∧
      offset + sourceStart alignment counts source + count ≤ slot ∧
      slot < offset + sourceStart alignment counts source + paddedCount alignment count := by
  induction counts generalizing offset with
  | nil => simp [places]
  | cons first counts ih =>
    have hpadded := le_paddedCount halign first
    have hmem : slot ∈ places alignment offset (first :: counts) ↔
        (offset ≤ slot ∧ slot < offset + first) ∨
          slot ∈ places alignment (offset + paddedCount alignment first) counts := by
      rw [places, List.mem_append, List.mem_range'_1]
    rw [hmem, List.map_cons, List.sum_cons]
    constructor
    · rintro ⟨hle, hlt, hnot⟩
      rw [not_or] at hnot
      -- The slot is in the padding of the first source, or among the other ones.
      by_cases hfirst : slot < offset + paddedCount alignment first
      · exact ⟨0, first, rfl, by rw [sourceStart_zero]; omega, by rw [sourceStart_zero]; omega⟩
      · obtain ⟨source, count, hcount, hstart, hend⟩ :=
          (ih _).mp ⟨by omega, by omega, hnot.2⟩
        exact ⟨source + 1, count, hcount, by rw [sourceStart_cons_succ]; omega,
          by rw [sourceStart_cons_succ]; omega⟩
    · rintro ⟨source, count, hcount, hstart, hend⟩
      cases source with
      | zero =>
        obtain rfl : first = count := by simpa using hcount
        rw [sourceStart_zero] at hstart hend
        refine ⟨by omega, by omega, not_or.mpr ⟨by omega, fun hrest => ?_⟩⟩
        have hbounds := mem_places_bounds halign hrest
        omega
      | succ source =>
        rw [sourceStart_cons_succ] at hstart hend
        obtain ⟨hle, hlt, hnot⟩ :=
          (ih (offset + paddedCount alignment first)).mpr
            ⟨source, count, by simpa using hcount, by omega, by omega⟩
        exact ⟨by omega, by omega, not_or.mpr ⟨by omega, hnot⟩⟩

end

/-! ## Plans -/

namespace FusionPlan

variable {plan : FusionPlan} {counts : List Nat} {alignment : Nat}

/-- A plan places the channels of its sources as they lie when every source is followed by its
padding: those of a source side by side, from behind the padded sources before it. -/
structure LaidOut (alignment : Nat) (counts : List Nat) (plan : FusionPlan) : Prop where
  channelCounts : plan.channelCounts = counts
  logicalTotal : plan.logicalTotal = counts.sum
  paddedTotal : plan.paddedTotal = (counts.map (paddedCount alignment)).sum
  location : ∀ source count, counts[source]? = some count → ∀ channel < count,
    plan.location? ((counts.take source).sum + channel) =
      some (((counts.take source).map (paddedCount alignment)).sum + channel)
  behind : ∀ channel, counts.sum ≤ channel → plan.location? channel = none
  increasing : plan.locations.Pairwise (· < ·)
  inside : ∀ place ∈ plan.locations, place < plan.paddedTotal
  unused : ∀ slot, (slot < plan.paddedTotal ∧ slot ∉ plan.locations) ↔
    ∃ source count, counts[source]? = some count ∧
      ((counts.take source).map (paddedCount alignment)).sum + count ≤ slot ∧
      slot < ((counts.take source).map (paddedCount alignment)).sum + paddedCount alignment count

theorem eq_of_withAlignment (h : withAlignment counts alignment = .ok plan) :
    plan = ⟨counts, places alignment 0 counts, (counts.map (paddedCount alignment)).sum⟩ := by
  obtain ⟨-, halign, found, total, hlayout, rfl⟩ := layout_of_withAlignment h
  obtain rfl := layout_eq_places halign (Nat.dvd_zero alignment) hlayout
  have htotal := layout_total halign (Nat.dvd_zero alignment) hlayout
  rw [htotal, Nat.zero_add]

theorem laidOut_of_withAlignment (h : withAlignment counts alignment = .ok plan) :
    plan.LaidOut alignment counts := by
  obtain ⟨hlogical, hpadded, halign⟩ := sizes_of_withAlignment h
  obtain rfl := eq_of_withAlignment h
  refine ⟨rfl, hlogical, hpadded, fun source count hcount channel hchannel => ?_,
    fun channel hle => ?_, pairwise_places halign 0 counts, fun place hplace => ?_,
    fun slot => ?_⟩
  · have hplace := getElem?_places alignment 0 hcount hchannel
    rwa [Nat.zero_add] at hplace
  · exact List.getElem?_eq_none (hlogical.le.trans hle)
  · have hbounds := mem_places_bounds halign hplace
    rw [Nat.zero_add] at hbounds
    exact hbounds.2
  · have hslots := @not_mem_places_iff _ halign 0 counts slot
    simp only [Nat.zero_add, Nat.zero_le, true_and] at hslots
    exact hslots

/-- A stack that was laid out fits the machine. -/
theorem fits_of_layout {offset total : Nat} {found : List Nat} (hoffset : Size.Fits offset)
    (h : layout alignment counts offset = .ok (found, total)) : Size.Fits total := by
  induction counts generalizing offset found with
  | nil =>
    cases h
    exact hoffset
  | cons count counts ih =>
    obtain ⟨next, rest, hnext, hrest, -⟩ := layout_cons h
    obtain ⟨hfits, rfl⟩ := Size.check_eq_ok_iff.mp hnext
    exact ih hfits hrest

/-- There is a plan only for padded sources that fit the machine together. -/
theorem fits_of_withAlignment (h : withAlignment counts alignment = .ok plan) :
    Size.Fits (counts.map (paddedCount alignment)).sum := by
  obtain ⟨-, hpadded, -⟩ := sizes_of_withAlignment h
  obtain ⟨-, -, found, total, hlayout, rfl⟩ := layout_of_withAlignment h
  have htotal := fits_of_layout (Nat.two_pow_pos 64) hlayout
  rwa [← hpadded]

/-- The plan of a fusion in all cases.  There is none without sources or for an alignment of zero;
otherwise the padded number of channels of a source is the least multiple of the alignment that has
room for them, and sources that fit the machine once they are padded are laid out one behind the
other.  Nothing else can fail. -/
theorem withAlignment_exact (counts : List Nat) (alignment : Nat) :
    (counts = [] → withAlignment counts alignment = .error (.noInputs "fusion")) ∧
    (counts ≠ [] → alignment = 0 →
      withAlignment counts alignment = .error (.badConfig .zeroFusionAlignment)) ∧
    (counts ≠ [] → 0 < alignment →
      (∀ count, IsLeast {size | alignment ∣ size ∧ count ≤ size} (paddedCount alignment count)) ∧
      (Size.Fits (counts.map (paddedCount alignment)).sum →
        ∃ plan, withAlignment counts alignment = .ok plan ∧ plan.LaidOut alignment counts) ∧
      (¬ Size.Fits (counts.map (paddedCount alignment)).sum →
        withAlignment counts alignment = .error .overflow)) := by
  refine ⟨?_, ?_, fun hne halign => ⟨isLeast_paddedCount halign, fun hfits => ?_, fun hover => ?_⟩⟩
  · rintro rfl
    rfl
  · rintro hne rfl
    rw [withAlignment, if_neg (by simpa using hne), if_pos rfl]
  · obtain ⟨plan, hplan⟩ := exists_plan hne halign hfits
    exact ⟨plan, hplan, laidOut_of_withAlignment hplan⟩
  · cases hplan : withAlignment counts alignment with
    | ok plan => exact absurd (fits_of_withAlignment hplan) hover
    | error e => rw [overflowsOnly_withAlignment hne halign e hplan]

/-- Four sources, one without channels and one that needs no padding; the slots 3 to 5 and 23 of the
stack are padding. -/
theorem withAlignment_exact_uneven :
    ∃ plan, withAlignment [3, 0, 12, 5] 6 = .ok plan ∧ plan.LaidOut 6 [3, 0, 12, 5] ∧
      plan.paddedTotal = 24 ∧ plan.location? 3 = some 6 ∧ plan.location? 15 = some 18 := by
  obtain ⟨-, -, hplans⟩ := withAlignment_exact [3, 0, 12, 5] 6
  obtain ⟨-, hfits, -⟩ := hplans (by decide) (by decide)
  obtain ⟨plan, hplan, hlaid⟩ := hfits (by decide)
  exact ⟨plan, hplan, hlaid, hlaid.paddedTotal, hlaid.location 2 12 rfl 0 (by decide),
    hlaid.location 3 5 rfl 0 (by decide)⟩

end FusionPlan

end LayerFlow
