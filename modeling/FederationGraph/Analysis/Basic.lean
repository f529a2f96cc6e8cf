import FederationGraph.Dependency.Record
import FederationGraph.Document.Reader
import FederationGraph.Registry.Merge
import FederationGraph.Schema.Label
import FederationGraph.Time.Instant

/-!
# Analyses

The analysis of a schema holds its registry, the dependencies recorded from it,
and what the schema is known as.
-/
namespace FederationGraph

/-- What is known about an analysis as a whole. -/
structure Metadata where
  analyzedAt : Instant
  schemaIdentifier : String
  subgraph : String
  totalTypes : Int
  totalDependencies : Int
  deriving DecidableEq, Repr, Inhabited

/-- The dependency graph of a schema. -/
structure Analysis where
  registry : Registry
  dependencies : List Dependency
  metadata : Metadata
  deriving Inhabited

namespace Analysis

/-- The analysis of a document under a label. -/
def ofDocument (document : Document) (identifier subgraph : String) (now : Instant) : Analysis :=
  let registry := Registry.ofDocument document
  let dependencies := registry.dependencies subgraph
  { registry
    dependencies
    metadata := ⟨now, identifier, subgraph, registry.types.size, dependencies.length⟩ }

/-- The label of a schema: the given one unless it is missing or empty, else the one the schema
gives itself. -/
def labelFor (given : Option String) (source identifier : String) : String :=
  (Registry.nonEmpty? given).getD (Schema.label source identifier)

/-- The analysis of a schema text. -/
def ofSource (source identifier : String) (subgraph : Option String) (now : Instant) :
    Except Document.Fault Analysis :=
  (Document.read source).map fun document =>
    ofDocument document identifier (labelFor subgraph source identifier) now

end Analysis

end FederationGraph
