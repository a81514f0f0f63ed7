/-
LayerFlow.Binary32.Shortest

The shortest decimal that rounds to a given single-precision number, and how it is laid out.
The real numbers that round to a finite value `m · 2 ^ e` form an interval around it, closed
exactly when `m` is even.  On the grids of 1, 2, …, 9 significant digits the two neighbours of
the value are tested against that interval; the first grid with a hit gives the digits.

Main statement: `nearby_mem`, a selected decimal is one of the two neighbours of the value on
its grid and lies in the interval.
-/
import LayerFlow.Binary32.Rounding
import LayerFlow.Numeral

namespace LayerFlow

/-- Which way an exact middle between two decimals of the same length goes. -/
inductive DecimalTie where
  | up
  | even
deriving DecidableEq, Repr

namespace Binary32

/-! ## The interval of a number -/

/-- The numbers that round to a positive finite value, in quarters of its last place: the value
is `4 · m`, the ends are `low` and `high`, and `closed` says whether they belong to it. -/
structure Interval where
  low : Nat
  value : Nat
  high : Nat
  closed : Bool

/-- The rounding interval of a positive finite number.  Below a power of two the neighbours are
twice as dense. -/
def interval (x : Binary32) : Interval :=
  let m := x.significand
  let low := if x.fraction = 0 ∧ 1 < x.exponentField then 4 * m - 1 else 4 * m - 2
  ⟨low, 4 * m, 4 * m + 2, m % 2 = 0⟩

/-- Whether `q / den`, given in the units of the interval, lies in the interval. -/
def Interval.contains (i : Interval) (q den : Nat) : Bool :=
  if i.closed then i.low * den ≤ q && q ≤ i.high * den
  else i.low * den < q && q < i.high * den

/-! ## One grid -/

/-- The number of quarters of a last place in one step of a decimal grid, as a quotient: the
grid has step `10 ^ k`, the quarter of a last place is `2 ^ (e - 2)`. -/
def gridStep (e k : Int) : Nat × Nat :=
  let tens : Nat × Nat := if 0 ≤ k then (tenPow k.toNat, 1) else (1, tenPow (-k).toNat)
  let twos : Nat × Nat := if 2 ≤ e then (1, twoPow (e - 2).toNat) else (twoPow (2 - e).toNat, 1)
  (tens.1 * twos.1, tens.2 * twos.2)

/-- The neighbour of the value, on the grid with step `num / den`, that lies in the interval;
the nearer one if both do. -/
def nearby? (tie : DecimalTie) (i : Interval) (num den : Nat) : Option Nat :=
  let below := i.value * den / num
  let rest := 2 * (i.value * den % num)
  let lowFits := i.contains (below * num) den
  let highFits := i.contains ((below + 1) * num) den
  match lowFits, highFits with
  | false, false => none
  | true, false => some below
  | false, true => some (below + 1)
  | true, true =>
    if rest < num then some below
    else if num < rest then some (below + 1)
    else match tie with
      | .up => some (below + 1)
      | .even => some (if below % 2 = 0 then below else below + 1)

/-- What `nearby?` selects is a neighbour of the value and lies in the interval. -/
theorem nearby_mem {tie : DecimalTie} {i : Interval} {num den d : Nat}
    (h : nearby? tie i num den = some d) :
    (d = i.value * den / num ∨ d = i.value * den / num + 1) ∧
      i.contains (d * num) den = true := by
  unfold nearby? at h
  dsimp only at h
  split at h
  · simp at h
  · next hl _ => simp only [Option.some.injEq] at h; subst h; exact ⟨.inl rfl, hl⟩
  · next _ hh => simp only [Option.some.injEq] at h; subst h; exact ⟨.inr rfl, hh⟩
  · next hl hh =>
    split at h
    · simp only [Option.some.injEq] at h; subst h; exact ⟨.inl rfl, hl⟩
    split at h
    · simp only [Option.some.injEq] at h; subst h; exact ⟨.inr rfl, hh⟩
    cases tie with
    | up => simp only [Option.some.injEq] at h; subst h; exact ⟨.inr rfl, hh⟩
    | even =>
      simp only [Option.some.injEq] at h
      subst h
      split
      · exact ⟨.inl rfl, hl⟩
      · exact ⟨.inr rfl, hh⟩

/-! ## The shortest decimal -/

/-- Drops trailing zeros of a digit list. -/
def dropTrailingZeros (ds : List Char) : List Char :=
  (ds.reverse.dropWhile (· == '0')).reverse

/-- The digits of a positive decimal, without trailing zeros, and the power of ten of the first
one. -/
structure Scientific where
  digits : List Char
  exponent : Int
deriving DecidableEq, Repr

/-- The decimal `n · 10 ^ k`. -/
def Scientific.ofScaled (n : Nat) (k : Int) : Scientific :=
  let ds := LayerFlow.digits n
  ⟨dropTrailingZeros ds, k + ds.length - 1⟩

/-- The power of ten of the first digit of a positive quotient. -/
def leadingPower (num den : Nat) : Int :=
  if den ≤ num then (digitCount (num / den) : Int) - 1
  else -(digitCount ((den - 1) / num) : Int)

/-- Tries the grids from the coarse step `10 ^ k` down, at most `count` of them. -/
def searchGrids (tie : DecimalTie) (i : Interval) (e : Int) : (count : Nat) → (k : Int) →
    Scientific
  | 0, k => .ofScaled (let step := gridStep e (k + 1); i.value * step.2 / step.1) (k + 1)
  | count + 1, k =>
    let step := gridStep e k
    match nearby? tie i step.1 step.2 with
    | some d => .ofScaled d k
    | none => searchGrids tie i e count (k - 1)

/-- The shortest decimal that rounds to a positive finite number; nine digits always suffice. -/
def shortest (tie : DecimalTie) (x : Binary32) : Scientific :=
  let e := x.exponent
  let quotient : Nat × Nat :=
    if 0 ≤ e then (x.significand * twoPow e.toNat, 1) else (x.significand, twoPow (-e).toNat)
  searchGrids tie x.interval e 9 (leadingPower quotient.1 quotient.2)

/-! ## Layout -/

/-- How finite numbers are written: which way ties go, for which powers of ten of the first
digit the number is written without an exponent, and whether whole numbers get a point and a
zero. -/
structure Layout where
  tie : DecimalTie
  positional : Int → Bool
  pointOnWhole : Bool

/-- Zeros. -/
def zeros (n : Nat) : List Char := List.replicate n '0'

/-- Lays out a positive decimal. -/
def Layout.write (layout : Layout) (negative : Bool) (x : Scientific) : Numeral :=
  let whole : Option (List Char) := if layout.pointOnWhole then some ['0'] else none
  if layout.positional x.exponent then
    if x.exponent < 0 then
      ⟨negative, ['0'], some (zeros (-x.exponent - 1).toNat ++ x.digits), none⟩
    else
      let places := (x.exponent + 1).toNat
      if x.digits.length ≤ places then
        ⟨negative, x.digits ++ zeros (places - x.digits.length), whole, none⟩
      else ⟨negative, x.digits.take places, some (x.digits.drop places), none⟩
  else
    let sign := if x.exponent < 0 then '-' else '+'
    let rest := x.digits.drop 1
    ⟨negative, x.digits.take 1, if rest.isEmpty then none else some rest,
      some ⟨some sign, LayerFlow.digits x.exponent.natAbs⟩⟩

/-- The numeral of a finite number in a layout. -/
def numeral (layout : Layout) (x : Binary32) : Numeral :=
  if x.isZero then
    ⟨x.negative, ['0'], if layout.pointOnWhole then some ['0'] else none, none⟩
  else layout.write x.negative (x.shortest layout.tie)

/-- Plain text: never an exponent, no point on whole numbers, ties away from zero. -/
def plainLayout : Layout := ⟨.up, fun _ => true, false⟩

/-- Document text: an exponent from a ten-millionth down and from ten million million up, a point
on whole numbers, ties to the even digit. -/
def documentLayout : Layout := ⟨.even, fun e => -6 ≤ e && e ≤ 12, true⟩

/-- A number in plain text, as labels and messages show it. -/
def text (x : Binary32) : String :=
  if x.isNaN then "NaN"
  else if !x.isFinite then (if x.negative then "-inf" else "inf")
  else String.ofList (x.numeral plainLayout).render

end Binary32

end LayerFlow
