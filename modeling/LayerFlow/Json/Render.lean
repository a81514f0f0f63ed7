/-
LayerFlow.Json.Render

Writing a tree as text, on one line without blanks or with one element a line.

Main statement: `escape_append`, a string is escaped character by character.
-/
import LayerFlow.Json

namespace LayerFlow.Json

/-! ## Strings -/

/-- The lower-case hexadecimal digit of a number below sixteen. -/
def hexDigit (n : Nat) : Char :=
  if n < 10 then Char.ofNat (48 + n) else Char.ofNat (87 + n)

/-- A character inside a string: quotes, backslashes and control characters are escaped. -/
def escapeChar (c : Char) : List Char :=
  if c = '\"' then ['\\', '\"']
  else if c = '\\' then ['\\', '\\']
  else if c.toNat = 8 then ['\\', 'b']
  else if c.toNat = 12 then ['\\', 'f']
  else if c.toNat = 10 then ['\\', 'n']
  else if c.toNat = 13 then ['\\', 'r']
  else if c.toNat = 9 then ['\\', 't']
  else if c.toNat < 32 then
    ['\\', 'u', '0', '0', hexDigit (c.toNat / 16), hexDigit (c.toNat % 16)]
  else [c]

/-- The characters between the quotes of a string. -/
def escape (cs : List Char) : List Char := cs.flatMap escapeChar

/-- A string is escaped character by character. -/
theorem escape_append (cs ds : List Char) : escape (cs ++ ds) = escape cs ++ escape ds := by
  simp [escape]

/-- A string with its quotes. -/
def quote (s : String) : List Char := '\"' :: escape s.toList ++ ['\"']

/-! ## Trees -/

/-- The blanks of a written tree: what stands before an element at a nesting depth, and what
stands after the colon of a field. -/
structure Spacing where
  line : Nat → List Char
  colon : List Char

/-- No blanks at all. -/
def Spacing.compact : Spacing := ⟨fun _ => [], []⟩

/-- One element a line, two blanks deeper with each level. -/
def Spacing.pretty : Spacing := ⟨fun depth => '\n' :: List.replicate (2 * depth) ' ', [' ']⟩

mutual

/-- The text of a tree that stands at a nesting depth. -/
def render (spacing : Spacing) (depth : Nat) : Json → List Char
  | .null => ['n', 'u', 'l', 'l']
  | .bool true => ['t', 'r', 'u', 'e']
  | .bool false => ['f', 'a', 'l', 's', 'e']
  | .number n => n.render
  | .text s => quote (s.getD "")
  | .list [] => ['[', ']']
  | .list (item :: items) =>
    '[' :: (spacing.line (depth + 1) ++ render spacing (depth + 1) item ++
      renderItems spacing (depth + 1) items ++ spacing.line depth ++ [']'])
  | .record [] => ['\x7b', '\x7d']
  | .record ((key, v) :: fields) =>
    '\x7b' :: (spacing.line (depth + 1) ++ quote (key.getD "") ++ ':' :: spacing.colon ++
      render spacing (depth + 1) v ++ renderFields spacing (depth + 1) fields ++
      spacing.line depth ++ ['\x7d'])

/-- The items of a list after the first one. -/
def renderItems (spacing : Spacing) (depth : Nat) : List Json → List Char
  | [] => []
  | item :: items =>
    ',' :: (spacing.line depth ++ render spacing depth item ++ renderItems spacing depth items)

/-- The fields of a record after the first one. -/
def renderFields (spacing : Spacing) (depth : Nat) : List (Option String × Json) → List Char
  | [] => []
  | (key, v) :: fields =>
    ',' :: (spacing.line depth ++ quote (key.getD "") ++ ':' :: spacing.colon ++
      render spacing depth v ++ renderFields spacing depth fields)

end

/-- A tree on one line. -/
def compact (v : Json) : String := String.ofList (v.render .compact 0)

/-- A tree with one element a line. -/
def pretty (v : Json) : String := String.ofList (v.render .pretty 0)

end LayerFlow.Json
