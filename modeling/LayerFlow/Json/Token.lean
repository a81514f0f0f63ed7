/-
LayerFlow.Json.Token

The tokens of a document and how they are cut out of its characters, one character at a time.
The grammar is strict: no comments, no leading zeros, no control characters inside strings;
only blanks, tabs and line ends stand between tokens.

Main statement: `scan?_append`, scanning two texts in a row is scanning the second from the
state that the first one leaves.
-/
import LayerFlow.Json

namespace LayerFlow

/-- One token of a document. -/
inductive Token where
  | listOpen
  | listClose
  | recordOpen
  | recordClose
  | comma
  | colon
  | null
  | bool (b : Bool)
  | number (n : Numeral)
  | text (s : Option String)
deriving DecidableEq, Repr

namespace Token

/-! ## Numerals -/

/-- How much of a numeral has been read. -/
inductive NumeralPhase where
  | sign
  | zero
  | whole
  | point
  | fraction
  | mark
  | powerSign
  | power
deriving DecidableEq, Repr

/-- What a character does to a numeral. -/
inductive NumeralStep where
  | more (phase : NumeralPhase)
  | ended
  | refused
deriving DecidableEq, Repr

/-- Reads one more character of a numeral.  After a sign, a point and an exponent mark a digit
has to follow; a leading zero stands alone. -/
def NumeralPhase.next (phase : NumeralPhase) (c : Char) : NumeralStep :=
  match phase with
  | .sign => if c = '0' then .more .zero else if isDigit c then .more .whole else .refused
  | .zero =>
    if c = '.' then .more .point
    else if c = 'e' ∨ c = 'E' then .more .mark
    else if isDigit c then .refused
    else .ended
  | .whole =>
    if isDigit c then .more .whole
    else if c = '.' then .more .point
    else if c = 'e' ∨ c = 'E' then .more .mark
    else .ended
  | .point => if isDigit c then .more .fraction else .refused
  | .fraction =>
    if isDigit c then .more .fraction
    else if c = 'e' ∨ c = 'E' then .more .mark
    else .ended
  | .mark =>
    if c = '+' ∨ c = '-' then .more .powerSign
    else if isDigit c then .more .power
    else .refused
  | .powerSign => if isDigit c then .more .power else .refused
  | .power => if isDigit c then .more .power else .ended

/-- Whether a numeral may end here. -/
def NumeralPhase.complete : NumeralPhase → Bool
  | .zero | .whole | .fraction | .power => true
  | .sign | .point | .mark | .powerSign => false

/-- The numeral with one more character, which led to a phase. -/
def extend (n : Numeral) (phase : NumeralPhase) (c : Char) : Numeral :=
  match phase with
  | .sign => { n with negative := true }
  | .zero | .whole => { n with whole := n.whole ++ [c] }
  | .point => { n with fraction := some [] }
  | .fraction => { n with fraction := some (n.fraction.getD [] ++ [c]) }
  | .mark => { n with power := some ⟨none, []⟩ }
  | .powerSign => { n with power := some ⟨some c, []⟩ }
  | .power =>
    match n.power with
    | some p => { n with power := some { p with digits := p.digits ++ [c] } }
    | none => n

/-- The numeral without any characters. -/
def noNumeral : Numeral := ⟨false, [], none, none⟩

/-! ## Strings -/

/-- What has been read of a string: its characters, last one first; the first half of a
surrogate pair, if the second one is still missing; whether all halves were paired so far. -/
structure Quoted where
  chars : List Char
  half : Option Nat
  paired : Bool
deriving DecidableEq, Repr

namespace Quoted

/-- Nothing read yet. -/
def empty : Quoted := ⟨[], none, true⟩

/-- Adds a character; a half still waiting stays alone. -/
def push (q : Quoted) (c : Char) : Quoted :=
  ⟨c :: q.chars, none, q.paired && q.half.isNone⟩

/-- Adds a 16-bit unit given by an escape. -/
def pushUnit (q : Quoted) (unit : Nat) : Quoted :=
  if 0xd800 ≤ unit ∧ unit < 0xdc00 then ⟨q.chars, some unit, q.paired && q.half.isNone⟩
  else if 0xdc00 ≤ unit ∧ unit < 0xe000 then
    match q.half with
    | some half =>
      ⟨Char.ofNat (0x10000 + (half - 0xd800) * 0x400 + (unit - 0xdc00)) :: q.chars, none,
        q.paired⟩
    | none => ⟨q.chars, none, false⟩
  else q.push (Char.ofNat unit)

/-- The string, unless half of a pair stands alone. -/
def close (q : Quoted) : Option String :=
  if q.paired && q.half.isNone then some (String.ofList q.chars.reverse) else none

end Quoted

/-- The value of a hexadecimal digit. -/
def hexValue? (c : Char) : Option Nat :=
  if isDigit c then some (c.toNat - 48)
  else if 97 ≤ c.toNat ∧ c.toNat ≤ 102 then some (c.toNat - 87)
  else if 65 ≤ c.toNat ∧ c.toNat ≤ 70 then some (c.toNat - 55)
  else none

/-- The character that a one-letter escape stands for. -/
def escaped? (c : Char) : Option Char :=
  if c = '\"' ∨ c = '\\' ∨ c = '/' then some c
  else if c = 'b' then some (Char.ofNat 8)
  else if c = 'f' then some (Char.ofNat 12)
  else if c = 'n' then some (Char.ofNat 10)
  else if c = 'r' then some (Char.ofNat 13)
  else if c = 't' then some (Char.ofNat 9)
  else none

/-! ## The scanner -/

/-- What the scanner is inside of. -/
inductive Scanning where
  | between
  /-- A word; some of its characters are still to come. -/
  | word (missing : List Char) (token : Token)
  | number (phase : NumeralPhase) (n : Numeral)
  | quoted (q : Quoted)
  /-- A string, right after a backslash. -/
  | escape (q : Quoted)
  /-- A string, after some hexadecimal digits of an escape. -/
  | unit (q : Quoted) (count value : Nat)
deriving DecidableEq, Repr

/-- The scanner: what it is inside of, and the tokens found, last one first. -/
structure Scanner where
  inside : Scanning
  found : List Token
deriving DecidableEq, Repr

namespace Scanner

/-- The scanner before the first character. -/
def start : Scanner := ⟨.between, []⟩

/-- Reads a character between tokens. -/
def stepBetween (found : List Token) (c : Char) : Option Scanner :=
  if c = ' ' ∨ c = '\n' ∨ c = '\r' ∨ c = '\t' then some ⟨.between, found⟩
  else if c = '[' then some ⟨.between, .listOpen :: found⟩
  else if c = ']' then some ⟨.between, .listClose :: found⟩
  else if c = '\x7b' then some ⟨.between, .recordOpen :: found⟩
  else if c = '\x7d' then some ⟨.between, .recordClose :: found⟩
  else if c = ',' then some ⟨.between, .comma :: found⟩
  else if c = ':' then some ⟨.between, .colon :: found⟩
  else if c = '\"' then some ⟨.quoted .empty, found⟩
  else if c = 'n' then some ⟨.word ['u', 'l', 'l'] .null, found⟩
  else if c = 't' then some ⟨.word ['r', 'u', 'e'] (.bool true), found⟩
  else if c = 'f' then some ⟨.word ['a', 'l', 's', 'e'] (.bool false), found⟩
  else if c = '-' then some ⟨.number .sign (extend noNumeral .sign c), found⟩
  else if c = '0' then some ⟨.number .zero (extend noNumeral .zero c), found⟩
  else if isDigit c then some ⟨.number .whole (extend noNumeral .whole c), found⟩
  else none

/-- Reads one character. -/
def step (s : Scanner) (c : Char) : Option Scanner :=
  match s.inside with
  | .between => stepBetween s.found c
  | .word missing token =>
    match missing with
    | [] => none
    | m :: rest =>
      if c = m then
        match rest with
        | [] => some ⟨.between, token :: s.found⟩
        | rest => some ⟨.word rest token, s.found⟩
      else none
  | .number phase n =>
    match phase.next c with
    | .more phase => some ⟨.number phase (extend n phase c), s.found⟩
    | .ended => stepBetween (.number n :: s.found) c
    | .refused => none
  | .quoted q =>
    if c = '\"' then some ⟨.between, .text q.close :: s.found⟩
    else if c = '\\' then some ⟨.escape q, s.found⟩
    else if c.toNat < 32 then none
    else some ⟨.quoted (q.push c), s.found⟩
  | .escape q =>
    if c = 'u' then some ⟨.unit q 0 0, s.found⟩
    else match escaped? c with
      | some c => some ⟨.quoted (q.push c), s.found⟩
      | none => none
  | .unit q count value =>
    match hexValue? c with
    | none => none
    | some digit =>
      if count = 3 then some ⟨.quoted (q.pushUnit (16 * value + digit)), s.found⟩
      else some ⟨.unit q (count + 1) (16 * value + digit), s.found⟩

/-- Reads several characters. -/
def run (s : Scanner) (cs : List Char) : Option Scanner := cs.foldlM step s

/-- The tokens in order, if the text may end here. -/
def finish (s : Scanner) : Option (List Token) :=
  match s.inside with
  | .between => some s.found.reverse
  | .number phase n => if phase.complete then some (.number n :: s.found).reverse else none
  | _ => none

@[simp] theorem run_nil (s : Scanner) : s.run [] = some s := rfl

@[simp] theorem run_cons (s : Scanner) (c : Char) (cs : List Char) :
    s.run (c :: cs) = (s.step c).bind fun next => next.run cs := rfl

/-- Reading two texts in a row. -/
theorem run_append (s : Scanner) (cs ds : List Char) :
    s.run (cs ++ ds) = (s.run cs).bind fun next => next.run ds := by
  simp [run, List.foldlM_append, bind, Option.bind]

end Scanner

/-- The tokens of a text, if it consists of tokens. -/
def scan? (cs : List Char) : Option (List Token) :=
  (Scanner.start.run cs).bind Scanner.finish

/-- Scanning two texts in a row is scanning the second from where the first one ends. -/
theorem scan?_append (cs ds : List Char) :
    scan? (cs ++ ds) =
      (Scanner.start.run cs).bind fun s => (s.run ds).bind Scanner.finish := by
  simp [scan?, Scanner.run_append, Option.bind_assoc]

end Token

end LayerFlow
