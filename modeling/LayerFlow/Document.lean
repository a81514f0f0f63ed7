/-
LayerFlow.Document

Values as document trees, and back.  A record may be given by its fields in any order, unknown
fields among them, or as a list of all its fields in the declared order.  A choice is given by
the name of the alternative, alone or as the only key of a record that holds its content.

Main statements: `fields?_obj`, the declared fields of a written record are found, and
`decode?_encode_nat`, `decode?_encode_int`, … for the basic values.
-/
import LayerFlow.Binary32.Reading
import LayerFlow.Binary32.Shortest
import LayerFlow.Checked
import LayerFlow.Dictionary
import LayerFlow.Json.Parse
import LayerFlow.Json.Render

namespace LayerFlow

/-- A type whose values are written as document trees and read from them. -/
class Document (α : Type) where
  encode : α → Json
  decode? : Json → Option α

namespace Document

/-! ## Records -/

/-- The values of a field among the fields of a record. -/
def valuesOf (name : String) (fields : List (Option String × Json)) : List Json :=
  fields.filterMap fun field => if field.1 = some name then some field.2 else none

/-- The value of a field that occurs once at most; nothing if it occurs more often. -/
def valueOf? (fields : List (Option String × Json)) (name : String) : Option (Option Json) :=
  match valuesOf name fields with
  | [] => some none
  | [v] => some (some v)
  | _ => none

/-- The values of the declared fields of a record, in the declared order; a field that is not
there is `none`.  Keys have to be proper strings, unknown fields are skipped, and a declared
field must not occur twice.  A list with a value for each field will do as well. -/
def fields? (names : List String) : Json → Option (List (Option Json))
  | .record fields =>
    if fields.all fun field => field.1.isSome then names.mapM (valueOf? fields) else none
  | .list items => if items.length = names.length then some (items.map some) else none
  | _ => none

/-- Reads a field that has to be there. -/
def field? {α : Type} [Document α] (value : Option Json) : Option α := value.bind decode?

/-- Reads a field that may be missing, or null. -/
def optional? {α : Type} [Document α] : Option Json → Option (Option α)
  | none => some none
  | some .null => some none
  | some v => (decode? v).map some

/-! ## Choices -/

/-- The name and the content of an alternative. -/
def variant? : Json → Option (String × Option Json)
  | .text (some name) => some (name, none)
  | .record [(some name, content)] => some (name, some content)
  | _ => none

/-- Whether an alternative has no content. -/
def isBare : Option Json → Bool
  | none => true
  | some .null => true
  | some _ => false

/-- Reads an alternative without content. -/
def bare? {α : Type} (content : Option Json) (value : α) : Option α :=
  if isBare content then some value else none

/-- The declared fields of the content of an alternative. -/
def contentFields? (names : List String) (content : Option Json) :
    Option (List (Option Json)) :=
  content.bind (fields? names)

/-- Writes an alternative with its content. -/
def tagged (name : String) (content : Json) : Json := .obj [(name, content)]

/-- Reads a choice between names without content. -/
def choice? {α : Type} (name : α → String) (alternatives : List α) (v : Json) : Option α := do
  let (given, content) ← variant? v
  let value ← alternatives.find? fun a => name a = given
  bare? content value

/-! ## Basic values -/

instance : Document Nat where
  encode := .nat
  decode?
    | .number n => n.natural?.filter fun k => Size.Fits k
    | _ => none

instance : Document Int where
  encode := .int
  decode?
    | .number n => n.integer?.filter fun k => Extent.Fits k
    | _ => none

instance : Document Bool where
  encode := .bool
  decode?
    | .bool b => some b
    | _ => none

instance : Document String where
  encode := .str
  decode?
    | .text s => s
    | _ => none

/-- Reads a number: a whole number of machine size directly, any other by scaling its digits. -/
def numberOf? (n : Numeral) : Option Binary32 :=
  match n.integer? with
  | some k =>
    if -0x8000000000000000 ≤ k ∧ k < 0x10000000000000000 then some (.ofInt k)
    else Binary32.ofNumeral? n
  | none => Binary32.ofNumeral? n

/-- Only finite numbers have a written form; the others are written as null, which is no
number. -/
instance : Document Binary32 where
  encode x := if x.isFinite then .number (x.numeral Binary32.documentLayout) else .null
  decode?
    | .number n => numberOf? n
    | _ => none

instance {α : Type} [Document α] : Document (List α) where
  encode xs := .list (xs.map encode)
  decode?
    | .list items => items.mapM decode?
    | _ => none

instance {α β : Type} [Document α] [Document β] : Document (α × β) where
  encode p := .list [encode p.1, encode p.2]
  decode?
    | .list [a, b] => do return (← decode? a, ← decode? b)
    | _ => none

instance {α : Type} [Document α] : Document (Dictionary α) where
  encode d := .obj (d.entries.map fun entry => (entry.1, encode entry.2))
  decode?
    | .record fields => do
      let entries ← fields.mapM fun field => do return (← field.1, ← decode? field.2)
      return .ofList entries
    | _ => none

/-! ## Laws -/

theorem decode?_encode_nat {n : Nat} (h : Size.Fits n) : decode? (encode n) = some n := by
  simp [encode, decode?, Json.nat, h]

theorem decode?_encode_int {n : Int} (h : Extent.Fits n) : decode? (encode n) = some n := by
  simp [encode, decode?, Json.int, h]

theorem decode?_encode_string (s : String) : decode? (encode s) = some s := rfl

theorem decode?_encode_bool (b : Bool) : decode? (encode b) = some b := rfl

/-- A list reads back if its elements do. -/
theorem decode?_encode_list {α : Type} [Document α] {xs : List α}
    (h : ∀ x ∈ xs, decode? (encode x) = some x) : decode? (encode xs) = some xs := by
  show (xs.map encode).mapM decode? = some xs
  induction xs with
  | nil => rfl
  | cons x xs ih =>
    have hx := h x List.mem_cons_self
    have hxs := ih fun y hy => h y (List.mem_cons_of_mem _ hy)
    simp only [List.map_cons, List.mapM_cons, hx, hxs]
    rfl

/-- A field of a written record is found under its name. -/
theorem valueOf?_obj {fields : List (String × Json)} (hnames : (fields.map Prod.fst).Nodup)
    {name : String} {v : Json} (hmem : (name, v) ∈ fields) :
    valueOf? (fields.map fun field => (some field.1, field.2)) name = some (some v) := by
  -- Names are distinct, so the search finds this one value and no other.
  have hvalues : ∀ fs : List (String × Json), (fs.map Prod.fst).Nodup → (name, v) ∈ fs →
      valuesOf name (fs.map fun field => (some field.1, field.2)) = [v] := by
    intro fs hnd hin
    induction fs with
    | nil => cases hin
    | cons first rest ih =>
      obtain ⟨hout, hrest⟩ := List.nodup_cons.mp hnd
      rcases List.mem_cons.mp hin with rfl | hin
      · have hnone : valuesOf name (rest.map fun field => (some field.1, field.2)) = [] := by
          simp only [valuesOf, List.filterMap_map, List.filterMap_eq_nil_iff]
          intro field hfield
          have : field.1 ≠ name := fun heq => hout (List.mem_map.mpr ⟨field, hfield, heq⟩)
          simp [this]
        simpa [valuesOf] using hnone
      · have hne : first.1 ≠ name := fun heq => hout (List.mem_map.mpr ⟨(name, v), hin, heq.symm⟩)
        simpa [valuesOf, hne] using ih hrest hin
  simp [valueOf?, hvalues fields hnames hmem]

/-- The declared fields of a written record are found. -/
theorem fields?_obj {fields : List (String × Json)} (hnames : (fields.map Prod.fst).Nodup) :
    fields? (fields.map Prod.fst) (.obj fields) = some (fields.map fun field => some field.2) := by
  have hall : ∀ fs : List (String × Json), fs ⊆ fields →
      (fs.map Prod.fst).mapM (valueOf? (fields.map fun field => (some field.1, field.2))) =
        some (fs.map fun field => some field.2) := by
    intro fs hsub
    induction fs with
    | nil => rfl
    | cons first rest ih =>
      have hfirst := valueOf?_obj hnames (hsub List.mem_cons_self)
      have hrest := ih fun field hfield => hsub (List.mem_cons_of_mem _ hfield)
      simp only [List.map_cons, List.mapM_cons, hfirst, hrest]
      rfl
  have hkeys : ((fields.map fun field => (some field.1, field.2)).all
      fun field : Option String × Json => field.1.isSome) = true := by simp
  simpa [fields?, Json.obj] using hall fields fun _ h => h

end Document

end LayerFlow
