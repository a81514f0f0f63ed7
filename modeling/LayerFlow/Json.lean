/-
LayerFlow.Json

Document trees.  Numbers are kept as they are written; a string that contains half of a
surrogate pair has no characters and is kept as `none`, so that a reader can refuse it where it
looks at it.  The fields of a record keep their order and their repetitions.
-/
import LayerFlow.Numeral

namespace LayerFlow

/-- A document tree. -/
inductive Json where
  | null
  | bool (b : Bool)
  | number (n : Numeral)
  | text (s : Option String)
  | list (items : List Json)
  | record (fields : List (Option String × Json))
deriving BEq, Repr, Inhabited

namespace Json

/-- A string with characters. -/
def str (s : String) : Json := .text (some s)

/-- A natural number. -/
def nat (n : Nat) : Json := .number (.ofNat n)

/-- A whole number. -/
def int (n : Int) : Json := .number (.ofInt n)

/-- A record with the given fields in order. -/
def obj (fields : List (String × Json)) : Json :=
  .record (fields.map fun field => (some field.1, field.2))

end Json

end LayerFlow
