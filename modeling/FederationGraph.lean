import FederationGraph.Main
import FederationGraph.Proofs.FieldSet.Forest
import FederationGraph.Proofs.FieldSet.Fragment
import FederationGraph.Proofs.FieldSet.Enclosing
import FederationGraph.Proofs.FieldSet.Braces
import FederationGraph.Proofs.FieldSet.Spread
import FederationGraph.Proofs.Document.Names
import FederationGraph.Proofs.Registry.Merge
import FederationGraph.Proofs.Registry.Fragments
import FederationGraph.Proofs.Registry.Reordering
import FederationGraph.Proofs.Registry.Spelling
import FederationGraph.Proofs.Registry.Implementations
import FederationGraph.Proofs.Decimal.Rounding
import FederationGraph.Proofs.Dependency.FieldSetEdge
import FederationGraph.Proofs.Dependency.Leaf
import FederationGraph.Proofs.Dependency.Reduction
import FederationGraph.Proofs.Dependency.Query
import FederationGraph.Proofs.Dependency.Prefix
import FederationGraph.Proofs.Dependency.Grounded
import FederationGraph.Proofs.Dependency.Spelling
import FederationGraph.Proofs.Analysis.Reordering
import FederationGraph.Proofs.Decimal.Layout
import FederationGraph.Proofs.Text.Quoted
import FederationGraph.Proofs.Json.Number
import FederationGraph.Proofs.Value
import FederationGraph.Proofs.Json.RoundTrip
import FederationGraph.Proofs.Time.Instant
import FederationGraph.Proofs.Time.Order
import FederationGraph.Proofs.Analysis.RoundTrip
import FederationGraph.Proofs.Document.Values
import FederationGraph.Proofs.Analysis.Reloading
import FederationGraph.Proofs.Files.Tree
import FederationGraph.Proofs.Json.LineEnds
import FederationGraph.Proofs.Store.Folder
import FederationGraph.Proofs.Store.Index
import FederationGraph.Proofs.Store.History
import FederationGraph.Proofs.Analysis.Checked
import FederationGraph.Proofs.Registry.Building
import FederationGraph.Proofs.Registry.Branches
import FederationGraph.Proofs.CommandLine.Run
import FederationGraph.Proofs.Store.Returning
import FederationGraph.Proofs.Store.Interrupted
import FederationGraph.Proofs.Store.Recency
import FederationGraph.Proofs.CommandLine.History
import FederationGraph.Proofs.CommandLine.Coherence
import FederationGraph.Proofs.Directive.Rendering
import FederationGraph.Proofs.Schema.Listing
import FederationGraph.Proofs.Schema.Label
import FederationGraph.Proofs.Schema.Concatenation
import FederationGraph.Proofs.Settings
