/-
LayerFlow.Demo

A small example: two branches over one image, fused again before a classifier.
-/
import LayerFlow.Backend.Tape
import LayerFlow.Graph.Build
import LayerFlow.Layer.Preset
import LayerFlow.Record
import LayerFlow.Stats

namespace LayerFlow.Demo

/-- Puts the example together. -/
def assemble : Op Failure Graph Unit := do
  let image ← Graph.addRawInput ⟨28, 28, 1, 1⟩
  let stem ← Graph.addFlow (.fresh "stem" [.raw image]
    [Layer.conv2d 8, Layer.batchNorm, Layer.relu])
  let wide ← Graph.addFlow (.fresh "wide" [.flow stem] [Layer.depthwiseConv2d 2 3, Layer.relu])
  let narrow ← Graph.addFlow (.fresh "narrow" [.flow stem]
    [.convolution (.standard 3 1 1 1 1 true .validOnly), Layer.sigmoid])
  let _ ← Graph.addFlow (.fresh "head" [.flow wide, .flow narrow]
    [Layer.maxPool 2, Layer.dense 10, Layer.softmax])
  pure ()

/-- A handle as a report shows it. -/
def handleText (h : Handle) : String := s!"NodeHandle({h.index})"

/-- A handle that may be missing, as a report shows it. -/
def gradientText : Option Handle → String
  | some h => s!"Some({handleText h})"
  | none => "None"

/-- Texts between brackets. -/
def bracketed (texts : List String) : String := "[" ++ ", ".intercalate texts ++ "]"

/-- Builds the example on a tape; the answer is the report, line by line. -/
def report : Op Failure (Graph × Tape) (List String) := do
  Graph.onGraph assemble
  let (g, _) ← Op.get
  let raw ← Graph.onBackend (Tape.readInputs g.rawInputs.length)
  let build ← Graph.buildAll raw
  let (g, tape) ← Op.get
  Op.say .info s!"Recorded {tape.size} nodes, {tape.gradientCount} of them gradients"
  let stats ← Op.ofExcept (Stats.lines g)
  let json ← Graph.onGraph Graph.exportJson
  pure (stats ++
    ["", s!"Flow outputs: {bracketed (build.outputs.map handleText)}",
      s!"Raw input gradients: {bracketed (build.rawInputGradients.map gradientText)}", ""] ++
    json.splitOn "\n")

/-- The outcome of the example from nothing. -/
def run : Outcome Failure (Graph × Tape) (List String) :=
  report.run (.empty, .empty none)

end LayerFlow.Demo
