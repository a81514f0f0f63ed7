/-
LayerFlow.Main

The command line: builds the example and prints its report.
-/
import LayerFlow.Demo

open LayerFlow

/-- Prints the report of the example; on a failure it prints the reason instead. -/
def main : IO UInt32 := do
  match Demo.run.result with
  | .ok lines =>
    for line in lines do
      IO.println line
    return 0
  | .error e =>
    IO.eprintln s!"Error: {e.message}"
    return 1
