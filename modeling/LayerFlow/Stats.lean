/-
LayerFlow.Stats

A table of the flows of a graph with their shapes and the memory of their outputs.
-/
import LayerFlow.Graph

namespace LayerFlow.Stats

/-! ## Text -/

/-- A text followed by blanks up to a width; a longer text stays as it is. -/
def padRight (width : Nat) (s : String) : String :=
  s ++ String.ofList (List.replicate (width - s.length) ' ')

/-- A text with blanks in front up to a width; a longer text stays as it is. -/
def padLeft (width : Nat) (s : String) : String :=
  String.ofList (List.replicate (width - s.length) ' ') ++ s

/-- A rule across the table. -/
def rule : String := String.ofList (List.replicate 110 '-')

/-- The columns of a line of the table, each padded to its width. -/
def columns (id label inputs inputShape outputShape memory stage : String) : String :=
  " ".intercalate [padRight 4 id, padRight 20 label, padRight 20 inputs, padRight 18 inputShape,
    padRight 18 outputShape, padRight 12 memory, padRight 12 stage]

/-! ## Memory -/

/-- The bytes of a flow's output: four for each element, none while its shape is not known or
its count is negative. -/
def outputBytes (f : Flow) : Except Failure Nat := do
  let count ← f.shapes.output.elementCount
  Size.mul (Size.ofExtent count) 4

/-- A number of bytes in megabytes with three places.  The number first takes the 53 bits of a
double; the places are then exact, a half going to the even neighbour. -/
def megabytes (bytes : Nat) : String :=
  let dropped := bytes.log2 - 52
  let value := roundHalfEven bytes (twoPow dropped) * twoPow dropped
  let thousandths := roundHalfEven (value * 1000) 0x100000
  let places := toString (thousandths % 1000)
  s!"{thousandths / 1000}." ++ String.ofList (List.replicate (3 - places.length) '0') ++ places

/-! ## Lines -/

/-- The lines before the table. -/
def heading (g : Graph) : List String :=
  ["", "Flow Graph Statistics", "=====================", "",
    s!"Raw Inputs: {g.rawInputs.length}"] ++
  (g.rawInputs.zipIdx.map fun entry => s!"  [{entry.2}] {entry.1.render}") ++
  ["", "Flow Details:", rule,
    columns "ID" "Label" "Inputs" "Input Shape" "Output Shape" "Output (MB)" "State", rule]

/-- The lines of a flow. -/
def flowLines (id : Nat) (f : Flow) (bytes : Nat) : List String :=
  columns (toString id) f.label (", ".intercalate (f.inputs.map Source.render))
    f.shapes.input.render f.shapes.output.render (megabytes bytes) f.state.stage.name ::
  f.layers.zipIdx.map fun entry =>
    s!"       {padLeft 2 (toString entry.2)}. {entry.1.label}"

/-- The sums below the table. -/
structure Totals where
  layers : Nat
  learned : Nat
  bytes : Nat

/-- The lines of the flows in order, and the sums over them. -/
def table : List (Nat × Flow) → Totals → Except Failure (List String × Totals)
  | [], totals => .ok ([], totals)
  | (id, f) :: rest, totals => do
    let bytes ← outputBytes f
    let sum ← Size.add totals.bytes bytes
    let (lines, totals) ← table rest ⟨totals.layers + f.layers.length,
      totals.learned + f.layers.countP Layer.requiresParameters, sum⟩
    return (flowLines id f bytes ++ lines, totals)

/-- The lines after the table. -/
def summary (g : Graph) (analysis : Analysis) (totals : Totals) : List String :=
  [rule, "", "Graph Structure:", s!"Entry points: {Graph.listText analysis.entryPoints}",
    s!"Exit points: {Graph.listText analysis.exitPoints}", "", "Graph Summary:",
    s!"Total Flows: {g.size}", s!"Total Layers: {totals.layers}",
    s!"Layers With Parameters: {totals.learned}",
    s!"Total Output Memory: {megabytes totals.bytes}"]

/-- The statistics of a graph, line by line.  Without an analysis the table stays empty. -/
def lines (g : Graph) : Except Failure (List String) :=
  match g.analysis with
  | none =>
    .ok (heading g ++ ["Warning: Graph not verified, execution order unknown"])
  | some analysis => do
    let rows := analysis.order.filterMap fun id => g.flows[id]?.map fun f => (id, f)
    let (rows, totals) ← table rows ⟨0, 0, 0⟩
    return heading g ++ rows ++ summary g analysis totals

end LayerFlow.Stats
