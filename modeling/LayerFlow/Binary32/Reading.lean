/-
LayerFlow.Binary32.Reading

Reading decimals, first to double and then to single precision, so that a value close to the
middle of two single-precision neighbours takes the side its double falls on.  There are two
ways to the double: `ofDecimal?` takes the nearest one, and `ofNumeral?` scales the digits that
fit in a machine word, which may end a place beside the nearest.
-/
import LayerFlow.Binary64
import LayerFlow.Numeral

namespace LayerFlow.Binary32

/-- Reads `± digits · 10 ^ exponent` through the nearest double; nothing if it is too large for
a double.  Exponents far outside the range of doubles are decided by the count of digits. -/
def ofDecimal? (negative : Bool) (digits : Nat) (exponent : Int) : Option Binary32 :=
  let magnitude : Int := digitCount digits + exponent
  if digits = 0 ∨ magnitude < -400 then some (ofMagnitude negative 0)
  else if 400 < magnitude then none
  else
    let double :=
      if 0 ≤ exponent then Binary64.nearest? (digits * tenPow exponent.toNat) 1
      else Binary64.nearest? digits (tenPow (-exponent).toNat)
    double.map (Binary64.toSingle negative)

/-- Reads a numeral by scaling the double nearest to its truncated digits; nothing if it is too
large for a double. -/
def ofNumeral? (x : Numeral) : Option Binary32 :=
  let (digits, exponent) := x.truncated
  ((Binary64.nearest? digits 1).bind fun double => double.scale? exponent).map
    (Binary64.toSingle x.negative)

end LayerFlow.Binary32
