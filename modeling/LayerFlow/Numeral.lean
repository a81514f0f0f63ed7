/-
LayerFlow.Numeral

Written decimal numbers: sign, digits, an optional point with digits after it, an optional
exponent.  A numeral keeps how the number is written, so that a whole number, a number with a
point and a number with an exponent stay different things until somebody asks for a value.

Main statements: `valueOf_digits`, the digits of a natural number read back as that number, and
`Numeral.natural?_ofNat` and `Numeral.integer?_ofInt`, whole numbers read back from their numerals.
-/

namespace LayerFlow

/-! ## Digits -/

/-- The digit character of a number below ten. -/
def digitChar (n : Nat) : Char := Char.ofNat (48 + n % 10)

/-- The number that a digit character stands for. -/
def digitValue (c : Char) : Nat := c.toNat - 48

/-- Whether a character is one of `0` to `9`. -/
def isDigit (c : Char) : Bool := 48 ≤ c.toNat && c.toNat ≤ 57

/-- The decimal digits of a natural number, most significant first, without leading zeros. -/
def digits (n : Nat) : List Char :=
  if n < 10 then [digitChar n] else digits (n / 10) ++ [digitChar n]

/-- The number written by a list of digits. -/
def valueOf (ds : List Char) : Nat :=
  ds.foldl (fun n c => 10 * n + digitValue c) 0

theorem digitValue_digitChar : (n : Nat) → digitValue (digitChar n) = n % 10 := by
  intro n
  have h : ∀ k, k < 10 → digitValue (digitChar k) = k := by decide
  have step : digitChar n = digitChar (n % 10) := by simp [digitChar]
  rw [step, h _ (Nat.mod_lt _ (by decide))]

theorem isDigit_digitChar : (n : Nat) → isDigit (digitChar n) = true := by
  intro n
  have h : ∀ k, k < 10 → isDigit (digitChar k) = true := by decide
  have step : digitChar n = digitChar (n % 10) := by simp [digitChar]
  rw [step, h _ (Nat.mod_lt _ (by decide))]

theorem valueOf_append_singleton (ds : List Char) (c : Char) :
    valueOf (ds ++ [c]) = 10 * valueOf ds + digitValue c := by
  simp [valueOf, List.foldl_append]

/-- Writing a natural number and reading its digits gives it back. -/
theorem valueOf_digits (n : Nat) : valueOf (digits n) = n := by
  fun_induction digits n with
  | case1 n h =>
    simp only [valueOf, List.foldl_cons, List.foldl_nil, digitValue_digitChar]
    omega
  | case2 n h ih =>
    rw [valueOf_append_singleton, ih, digitValue_digitChar]
    omega

/-- Only digits are written. -/
theorem isDigit_of_mem_digits {n : Nat} {c : Char} (h : c ∈ digits n) : isDigit c = true := by
  fun_induction digits n with
  | case1 n hn =>
    obtain rfl := List.mem_singleton.mp h
    exact isDigit_digitChar n
  | case2 n hn ih =>
    rcases List.mem_append.mp h with h | h
    · exact ih h
    · obtain rfl := List.mem_singleton.mp h
      exact isDigit_digitChar n

theorem digits_ne_nil (n : Nat) : digits n ≠ [] := by
  rw [digits]
  split <;> simp

/-! ## Digits within a machine word -/

/-- Appends digits to a number as long as it stays below `2 ^ 64`, and counts them.  The first
digit that does not fit ends it. -/
def absorb (n : Nat) : List Char → Nat × Nat
  | [] => (n, 0)
  | c :: rest =>
    let next := 10 * n + digitValue c
    if next < 0x10000000000000000 then
      let taken := absorb next rest
      (taken.1, taken.2 + 1)
    else (n, 0)

/-! ## Numerals -/

/-- The exponent part of a numeral: the written sign, if any, and the digits. -/
structure Numeral.Power where
  sign : Option Char
  digits : List Char
deriving DecidableEq, Repr

/-- A written decimal number. -/
structure Numeral where
  negative : Bool
  whole : List Char
  fraction : Option (List Char)
  power : Option Numeral.Power
deriving DecidableEq, Repr

namespace Numeral

/-- The numeral of a natural number. -/
def ofNat (n : Nat) : Numeral := ⟨false, LayerFlow.digits n, none, none⟩

/-- The numeral of a whole number. -/
def ofInt (n : Int) : Numeral := ⟨n < 0, LayerFlow.digits n.natAbs, none, none⟩

/-- The characters of a numeral. -/
def render (x : Numeral) : List Char :=
  (if x.negative then ['-'] else []) ++ x.whole ++
    (match x.fraction with
      | none => []
      | some ds => '.' :: ds) ++
    (match x.power with
      | none => []
      | some p => 'e' :: p.sign.toList ++ p.digits)

/-- Whether the number is written with neither a point nor an exponent. -/
def isWhole (x : Numeral) : Bool := x.fraction.isNone && x.power.isNone

/-- The natural number written plainly, without sign, point or exponent. -/
def natural? (x : Numeral) : Option Nat :=
  if x.isWhole && !x.negative then some (valueOf x.whole) else none

/-- The whole number written plainly, without point or exponent.  A zero with a sign is no
whole number. -/
def integer? (x : Numeral) : Option Int :=
  if !x.isWhole then none
  else if x.negative then
    if valueOf x.whole = 0 then none else some (-(valueOf x.whole : Int))
  else some (valueOf x.whole)

/-- All digits before the exponent, as one number. -/
def significand (x : Numeral) : Nat := valueOf (x.whole ++ x.fraction.getD [])

/-- The written exponent; none counts as zero. -/
def exponent (x : Numeral) : Int :=
  match x.power with
  | none => 0
  | some p => if p.sign = some '-' then -(valueOf p.digits : Int) else valueOf p.digits

/-- The power of ten that the significand is to be multiplied by. -/
def scale (x : Numeral) : Int := x.exponent - (x.fraction.getD []).length

/-- The digits that fit in a machine word, as one number, and the power of ten that goes with
it.  A digit of the whole part that is left out counts in the power; one of the fraction is
forgotten.  After a truncated whole part the digits of the fraction are tried again. -/
def truncated (x : Numeral) : Nat × Int :=
  let whole := absorb 0 x.whole
  let all := absorb whole.1 (x.fraction.getD [])
  (all.1, x.exponent + ((x.whole.length - whole.2 : Nat) : Int) - all.2)

/-- A natural number reads back from its numeral. -/
@[simp] theorem natural?_ofNat (n : Nat) : (ofNat n).natural? = some n := by
  simp [natural?, ofNat, isWhole, valueOf_digits]

/-- A whole number reads back from its numeral. -/
@[simp] theorem integer?_ofInt (n : Int) : (ofInt n).integer? = some n := by
  by_cases h : n < 0
  · have hzero : n.natAbs ≠ 0 := by omega
    have hvalue : -(n.natAbs : Int) = n := by omega
    simp only [integer?, ofInt, isWhole, valueOf_digits, h, hzero, hvalue, Option.isNone_none,
      Bool.and_self, Bool.not_true, decide_true, Bool.false_eq_true, ↓reduceIte]
  · have hvalue : (n.natAbs : Int) = n := by omega
    simp only [integer?, ofInt, isWhole, valueOf_digits, h, hvalue, Option.isNone_none,
      Bool.and_self, Bool.not_true, decide_false, Bool.false_eq_true, ↓reduceIte]

end Numeral

end LayerFlow
