/-
LayerFlow.Config

The settings of a graph and when they are accepted.

Main statement: `check_eq_ok_iff`, checking settings changes nothing and accepts exactly the
valid ones; `valid_default`, the usual settings are among them.
-/
import LayerFlow.Failure
import LayerFlow.Power

namespace LayerFlow

/-- The settings of a graph. -/
structure Config where
  /-- The most passes that inference may take. -/
  maxPasses : Nat
  /-- The multiple that the channels of concatenated sources are padded to. -/
  channelAlignment : Nat
  /-- Whether the flows of a level are inferred independently of one another. -/
  parallel : Bool
  /-- How many of them at a time. -/
  workers : Nat
deriving DecidableEq, Repr

namespace Config

/-- The usual settings on a machine with some number of processors, which the system tells; nothing
but the number of workers depends on it. -/
def default (processors : Nat := 1) : Config := ⟨16, 4, false, processors⟩

instance : Inhabited Config := ⟨default 1⟩

/-- Whether a number is a power of two. -/
def isPowerOfTwo (n : Nat) : Bool := n != 0 && twoPow n.log2 == n

/-- One pass settles the shapes and a second one confirms them, so two are needed; the alignment
is a power of two; somebody has to do the work. -/
def Valid (c : Config) : Prop :=
  2 ≤ c.maxPasses ∧ isPowerOfTwo c.channelAlignment = true ∧ 1 ≤ c.workers

/-- The settings themselves, if they are valid; the first fault otherwise. -/
def check (c : Config) : Except Failure Config :=
  if c.maxPasses < 2 then .error (.badConfig (.tooFewPasses c.maxPasses))
  else if isPowerOfTwo c.channelAlignment = false then
    .error (.badConfig (.badAlignment c.channelAlignment))
  else if c.workers = 0 then .error (.badConfig .noWorkers)
  else .ok c

/-- The usual settings are valid on every machine that has a processor. -/
theorem valid_default {processors : Nat} (h : 1 ≤ processors) : (default processors).Valid := by
  have hpasses : 2 ≤ 16 := by decide
  have halignment : isPowerOfTwo 4 = true := by decide
  exact ⟨hpasses, halignment, h⟩

/-- Exactly the valid settings are accepted, as they are. -/
theorem check_eq_ok_iff {c d : Config} : c.check = .ok d ↔ c.Valid ∧ d = c := by
  unfold check Valid
  split
  · simp; omega
  split
  · next h => simp [h]
  split
  · simp; omega
  · next h2 h3 h4 =>
    simp only [Except.ok.injEq]
    simp only [Bool.not_eq_false] at h3
    constructor
    · rintro rfl
      exact ⟨⟨by omega, h3, by omega⟩, rfl⟩
    · rintro ⟨-, rfl⟩
      rfl

end Config

end LayerFlow
