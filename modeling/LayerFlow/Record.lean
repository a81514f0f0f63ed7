/-
LayerFlow.Record

The written form of a graph: a version, the raw inputs and the flows with their label, layers
and sources.  Shapes and builds are not written; they are derived anew after reading.

Main statement: `ofRecord_version`, only records of the current version become graphs.
-/
import LayerFlow.Document.Layer
import LayerFlow.Graph

namespace LayerFlow

/-- What is kept of a graph. -/
structure Record where
  version : Nat
  rawInputs : List Shape
  flows : List Flow
deriving DecidableEq

/-- The version of records that is written and read. -/
def Record.currentVersion : Nat := 1

namespace Document

instance : Document Source where
  encode
    | .raw slot => tagged "RawInput" (encode slot)
    | .flow id => tagged "FlowOutput" (encode id)
  decode? v := do
    let (name, content) ← variant? v
    let content ← content
    if name = "RawInput" then return .raw (← decode? content)
    else if name = "FlowOutput" then return .flow (← decode? content)
    else none

instance : Document Flow where
  encode f := .obj [("label", encode f.label), ("layers", encode f.layers),
    ("inputs", encode f.inputs)]
  decode? v := do
    match ← fields? ["label", "layers", "inputs"] v with
    | [label, layers, inputs] =>
      let label : String ← field? label
      let layers : List Layer ← field? layers
      return .fresh label (← field? inputs) layers
    | _ => none

/-- Versions have 32 bits. -/
def version? (v : Option Json) : Option Nat :=
  (field? v).filter fun n : Nat => n < 0x100000000

instance : Document Record where
  encode r := .obj [("version", encode r.version), ("raw_inputs", encode r.rawInputs),
    ("flows", encode r.flows)]
  decode? v := do
    match ← fields? ["version", "raw_inputs", "flows"] v with
    | [version, rawInputs, flows] =>
      return ⟨← version? version, ← field? rawInputs, ← field? flows⟩
    | _ => none

end Document

namespace Graph

/-- The record of a graph. -/
def record (g : Graph) : Record := ⟨Record.currentVersion, g.rawInputs, g.flows⟩

/-- The graph of a record, if its version is current and settings and references are in
order. -/
def ofRecord (r : Record) (config : Config) : Except Failure Graph :=
  if r.version = Record.currentVersion then ofParts r.rawInputs r.flows config
  else .error (.badVersion r.version)

/-- The text of a graph. -/
def exportText (g : Graph) : String := (Document.encode g.record).pretty

/-- Writes a graph as text. -/
def exportJson : Op Failure Graph String := do
  let g ← Op.get
  Op.say .info s!"Exported {g.size} flow(s)"
  pure g.exportText

/-- Reads a graph from text. -/
def ofText (text : String) (config : Config) : Except Failure Graph :=
  match (Json.parse? text).bind Document.decode? with
  | some r => ofRecord r config
  | none => .error .badDocument

/-- Replaces the graph by one read from text; a text that cannot be read changes nothing. -/
def importJson (text : String) (config : Config) : Op Failure Graph Unit := do
  let g ← Op.ofExcept (ofText text config)
  Op.say .info s!"Imported {g.size} flow(s)"
  Op.set g

/-- Only records of the current version become graphs. -/
theorem ofRecord_version {r : Record} {config : Config} {g : Graph}
    (h : ofRecord r config = .ok g) : r.version = Record.currentVersion := by
  unfold ofRecord at h
  split at h
  · assumption
  · cases h

end Graph

end LayerFlow
