/-
LayerFlow.Binary32.Rounding

Rounding of exact quotients to binary formats, to nearest with ties to even, in whole-number
arithmetic.
-/
import LayerFlow.Binary32
import LayerFlow.Power

namespace LayerFlow

/-! ## Rounding a quotient to a whole number -/

/-- The whole number nearest to `num / den`; a half goes to the even neighbour. -/
def roundHalfEven (num den : Nat) : Nat :=
  let below := num / den
  let rest := 2 * (num % den)
  if rest < den ∨ (rest = den ∧ below % 2 = 0) then below else below + 1

/-! ## Binary formats -/

/-- A binary format: its values are `m · 2 ^ e` with `m < 2 ^ precision`, `least ≤ e`, and
absolute value below `2 ^ top`. -/
structure BinaryFormat where
  precision : Nat
  least : Int
  top : Int

/-- Single precision. -/
def BinaryFormat.single : BinaryFormat := ⟨24, -149, 128⟩

/-- Double precision. -/
def BinaryFormat.double : BinaryFormat := ⟨53, -1074, 1024⟩

namespace BinaryFormat

/-- Whether `num / den` is at least `2 ^ e`. -/
def reachesPower (num den : Nat) (e : Int) : Bool :=
  if 0 ≤ e then den * twoPow e.toNat ≤ num else den ≤ num * twoPow (-e).toNat

/-- The exponent of the last place that a positive quotient `num / den` is rounded in: the one
that leaves `precision` binary digits, or the least one of the format. -/
def lastPlace (f : BinaryFormat) (num den : Nat) : Int :=
  let guess : Int := (num.log2 : Int) - den.log2
  let top := if reachesPower num den guess then guess else guess - 1
  max f.least (top + 1 - f.precision)

/-- The nearest value of the format to a positive quotient, as `m` and `e` with value
`m · 2 ^ e`, or nothing if it is `2 ^ top` or more. -/
def round? (f : BinaryFormat) (num den : Nat) : Option (Nat × Int) :=
  let e := f.lastPlace num den
  let m :=
    if 0 ≤ e then roundHalfEven num (den * twoPow e.toNat)
    else roundHalfEven (num * twoPow (-e).toNat) den
  if m = 0 ∨ (m.log2 : Int) + e < f.top then some (m, e) else none

end BinaryFormat

/-! ## Single-precision numbers from exact values -/

namespace Binary32

/-- The single-precision number nearest to `± num / den`; too large a value gives an infinity. -/
def ofQuotient (negative : Bool) (num den : Nat) : Binary32 :=
  if num = 0 then ofMagnitude negative 0
  else match BinaryFormat.single.round? num den with
    | none => infinity negative
    | some (m, e) => ofMagnitude negative ((e + 149).toNat * 0x800000 + m)

/-- The single-precision number nearest to a whole number. -/
def ofInt (n : Int) : Binary32 := ofQuotient (n < 0) n.natAbs 1

/-- The number of decimal digits of `n`; one for zero. -/
def digitCount (n : Nat) : Nat :=
  if n < 10 then 1 else digitCount (n / 10) + 1

end Binary32

end LayerFlow
