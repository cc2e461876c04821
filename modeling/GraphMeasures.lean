import GraphMeasures.Access
import GraphMeasures.Algorithm
import GraphMeasures.Containment.Lemmas
import GraphMeasures.Containment.Scopes
import GraphMeasures.Containment.Script
import GraphMeasures.Conversion
import GraphMeasures.Decimal.Binary64
import GraphMeasures.Decimal.Shortest
import GraphMeasures.EngineError
import GraphMeasures.Entity
import GraphMeasures.Environment
import GraphMeasures.Failure
import GraphMeasures.Graph.Basic
import GraphMeasures.Graph.Lemmas
import GraphMeasures.Graph.Numbering
import GraphMeasures.Host
import GraphMeasures.Journal
import GraphMeasures.Json.Number
import GraphMeasures.Json.Reader
import GraphMeasures.Json.Value
import GraphMeasures.Logging
import GraphMeasures.Operation.EdgeAttribute
import GraphMeasures.Operation.Loading
import GraphMeasures.Operation.Repository
import GraphMeasures.Operation.Segmentation
import GraphMeasures.OperationError
import GraphMeasures.Options
import GraphMeasures.Partition
import GraphMeasures.Partition.Lemmas
import GraphMeasures.Proofs.AllOrNothing
import GraphMeasures.Proofs.Containment.Isolation
import GraphMeasures.Proofs.Containment.Swallowed
import GraphMeasures.Proofs.Containment.Threads
import GraphMeasures.Proofs.Conversion
import GraphMeasures.Proofs.Conversion.Bundles
import GraphMeasures.Proofs.Conversion.Memberships
import GraphMeasures.Proofs.Conversion.Rows
import GraphMeasures.Proofs.Conversion.Segmentations
import GraphMeasures.Proofs.Conversion.Singletons
import GraphMeasures.Proofs.Counts
import GraphMeasures.Proofs.Double
import GraphMeasures.Proofs.Double.Arithmetic
import GraphMeasures.Proofs.Double.Ceiling
import GraphMeasures.Proofs.Double.Mean
import GraphMeasures.Proofs.Double.Nearest
import GraphMeasures.Proofs.Double.Rounding
import GraphMeasures.Proofs.Double.Stored
import GraphMeasures.Proofs.Double.Whole
import GraphMeasures.Proofs.Exact
import GraphMeasures.Proofs.FireRounds
import GraphMeasures.Proofs.Graph.History
import GraphMeasures.Proofs.Graph.Indexing
import GraphMeasures.Proofs.Graph.Links
import GraphMeasures.Proofs.Graph.Lookup
import GraphMeasures.Proofs.Graph.Numbering
import GraphMeasures.Proofs.Modularity
import GraphMeasures.Proofs.Operation
import GraphMeasures.Proofs.Operation.Triangles
import GraphMeasures.Proofs.Outcome
import GraphMeasures.Proofs.Partition
import GraphMeasures.Proofs.Partition.Bound
import GraphMeasures.Proofs.Partition.Sizes
import GraphMeasures.Proofs.Quality
import GraphMeasures.Proofs.Quality.Blocks
import GraphMeasures.Proofs.Quality.Dominance
import GraphMeasures.Proofs.Random.Streams
import GraphMeasures.Proofs.Reading
import GraphMeasures.Proofs.Reconciliation
import GraphMeasures.Proofs.Reconciliation.Matching
import GraphMeasures.Proofs.Score
import GraphMeasures.Proofs.Score.FireTree
import GraphMeasures.Proofs.Score.Triangles
import GraphMeasures.Proofs.Segmentation.Presentation
import GraphMeasures.Proofs.Segmentation.Release
import GraphMeasures.Proofs.Segmentation.RowSums
import GraphMeasures.Proofs.Segmentation.Scalar
import GraphMeasures.Proofs.StableOrder
import GraphMeasures.Proofs.Text.Encoding
import GraphMeasures.Proofs.ThreadCounts
import GraphMeasures.Quality
import GraphMeasures.Quantity
import GraphMeasures.Random.Generator
import GraphMeasures.Reconciliation
import GraphMeasures.Registry
import GraphMeasures.Run
import GraphMeasures.Run.Lemmas
import GraphMeasures.RunConfig
import GraphMeasures.Score.Basic
import GraphMeasures.Score.Fire
import GraphMeasures.Score.ForestFire
import GraphMeasures.Text.Character
import GraphMeasures.Text.Extender
import GraphMeasures.Text.Invisible
import GraphMeasures.Text.Quoted
import GraphMeasures.Text.Utf8
