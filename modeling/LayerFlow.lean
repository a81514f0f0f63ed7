import LayerFlow.Backend.Curtailed
import LayerFlow.Main
import LayerFlow.Proofs.References.Order
import LayerFlow.Proofs.Backend.Abstraction
import LayerFlow.Proofs.Traversal
import LayerFlow.Proofs.Backend.Calls
import LayerFlow.Proofs.Flow.Shapes
import LayerFlow.Proofs.Flow.Calls
import LayerFlow.Proofs.Flow.Reachable
import LayerFlow.Proofs.Graph.Reachable
import LayerFlow.Proofs.Graph.Evaluation
import LayerFlow.Proofs.Graph.Inference
import LayerFlow.Proofs.Graph.Backward
import LayerFlow.Proofs.Backend.Recording
import LayerFlow.Proofs.Graph.Forward
import LayerFlow.Proofs.Flow.Mirror
import LayerFlow.Proofs.Graph.Recording
import LayerFlow.Proofs.Graph.Mirror
import LayerFlow.Proofs.Walks
import LayerFlow.Proofs.Backend.GradientFlow
import LayerFlow.Proofs.Graph.ChainRule
import LayerFlow.Proofs.Fusion.Layout
import LayerFlow.Proofs.Flow.Regular
import LayerFlow.Proofs.Flow.Chained
import LayerFlow.Proofs.Graph.Compilation
import LayerFlow.Proofs.Graph.Edits
import LayerFlow.Proofs.Graph.Identity
import LayerFlow.Proofs.Graph.ShapeConsistency
import LayerFlow.Proofs.References.Chains
import LayerFlow.Proofs.Backend.Granting
import LayerFlow.Proofs.Fusion.Sizes
import LayerFlow.Proofs.Flow.Progress
import LayerFlow.Proofs.Flow.History
import LayerFlow.Proofs.Graph.Analysis
import LayerFlow.Proofs.Graph.Progress
import LayerFlow.Proofs.Graph.Independence
import LayerFlow.Proofs.Graph.Settling
import LayerFlow.Proofs.Graph.Modes
import LayerFlow.Proofs.Graph.Renumbering
import LayerFlow.Proofs.Graph.Flowwise
import LayerFlow.Proofs.Graph.History
import LayerFlow.Proofs.Graph.Atomicity
import LayerFlow.Proofs.Graph.Freshness
import LayerFlow.Proofs.Flow.Stores
import LayerFlow.Proofs.Graph.Stores
import LayerFlow.Proofs.Backend.Requests
import LayerFlow.Proofs.Json.Scanning
import LayerFlow.Proofs.Json.Building
import LayerFlow.Proofs.Json.Numerals
import LayerFlow.Proofs.Document.Written
import LayerFlow.Proofs.Document.Reading
import LayerFlow.Proofs.Graph.Persistence
import LayerFlow.Proofs.Graph.Restoration
import LayerFlow.Proofs.References.Search
import LayerFlow.Proofs.Graph.Checking
import LayerFlow.Proofs.Graph.Extension
import LayerFlow.Proofs.Graph.Insertion
import LayerFlow.Proofs.Flow.Resolved
import LayerFlow.Proofs.Graph.Resolved
import LayerFlow.Proofs.Fusion.Locations
import LayerFlow.Proofs.Fusion.Selection
import LayerFlow.Proofs.Flow.Backpropagation
import LayerFlow.Proofs.Flow.Refusals
import LayerFlow.Proofs.Padding.Positions
import LayerFlow.Proofs.Padding.Range
import LayerFlow.Proofs.Layer.Positive
