import FederationGraph.Analysis.Trace
import FederationGraph.CommandLine.Inquiry
import FederationGraph.Schema.Source

/-!
# Updates

Two commands change the stored analyses. One analyzes a schema and keeps the
result, unless there is one already and no force is used. The other removes all
of them. An analysis that is made moves the session's instant on by a second,
whether it can be kept or not.
-/
namespace FederationGraph.CommandLine

open Console

/-- The items that sum up an analysis. -/
def summaryItems (m : Metadata) : List Item :=
  [.labelled "Schema" m.schemaIdentifier, .labelled "Subgraph" m.subgraph,
    .labelled "Total types" (integerText m.totalTypes),
    .labelled "Total dependencies" (integerText m.totalDependencies),
    .labelled "Analyzed at" m.analyzedAt.wholeText]

/-- The messages about reading the schema at a location: one for each entry before the first that
cannot be read, and one more if there is none. -/
def loadingItems (t : FileTree) (place : Location) : List Item :=
  let entries := Schema.entries t [] (.ofLocation place)
  let loaded := entries.takeWhile fun entry => (Schema.entryText t [] entry).isOk
  loaded.map (fun entry => .message .debug ("Loaded schema file " ++ entry.text)) ++
    if loaded.isEmpty || loaded.length < entries.length then []
    else [.message .info ("Analyzing schema: " ++ place.text)]

/-- The messages about what the analysis of a schema came across. -/
def traceItems (t : FileTree) (place : Location) (m : Metadata) : List Item :=
  match (Schema.source t [] (.ofLocation place)).toOption.bind fun source =>
      (Document.read source).toOption with
  | some document =>
    (Analysis.trace document m.schemaIdentifier m.subgraph).map fun event =>
      .message .debug event.message
  | none => []

/-- The outcome where a schema has no source. -/
def sourceOutcome (fault : Schema.SourceFault) : Outcome :=
  match fault with
  | .unreadable .notText => .failed (.schemaFile .notText)
  | .unreadable _ => .stopped ("File I/O error: " ++ fault.message)
  | .noFiles _ => .stopped ("File I/O error: " ++ fault.message)
  | .invalid _ _ _ => .stopped ("Invalid schema: " ++ fault.message)
  | .invalidWhole _ => .stopped ("Invalid schema: " ++ fault.message)

/-- The message that an analysis is kept. -/
def storedMessage (store : Store) (identifier : String) : String :=
  "Stored analysis of " ++ identifier ++ " in " ++
    (store.path.extend [Store.fileName identifier]).text

/-- Keeps an analysis and sums it up. -/
def keep (s : Session) (store : Store) (analysis : Analysis) : Session × Outcome :=
  let m := analysis.metadata
  match store.put s.files analysis with
  | (files, .error fault) => ({ s with files }, .failed (.store fault))
  | (files, .ok ()) =>
    ({ s with files }, .success (.message .debug (storedMessage store m.schemaIdentifier) ::
      .success "Analysis complete!" :: summaryItems m))

/-- Analyzes the schema at a path under the given label and keeps the result. -/
def analyzeAnew (s : Session) (store : Store) (schema : String) (subgraph : Option String) :
    Session × Outcome :=
  let loading := loadingItems s.files (s.resolve schema)
  match Analysis.ofPath s.files s.folder (.ofText schema) subgraph s.now with
  | .error fault => (s, (sourceOutcome fault).after loading)
  | .ok analysis =>
    let trace := traceItems s.files (s.resolve schema) analysis.metadata
    let (after, outcome) := keep { s with now := s.now.next } store analysis
    (after, outcome.after (loading ++ trace))

/-- Sums up the stored analysis of a schema. -/
def summarize (s : Session) (store : Store) (identifier : String) : Outcome :=
  Outcome.after [.message .warning "Schema already analyzed. Use --force to re-analyze."]
    (match store.get s.files identifier with
      | .ok analysis => .success (summaryItems analysis.metadata)
      | .error fault => .failed (.store fault))

/-- The label for a schema: a given one, or else the one in the settings. -/
def labelFor (given : Option String) (settings : Settings) : Option String :=
  match Registry.nonEmpty? given with
  | some label => some label
  | none => settings.subgraph

/-- Analyzes a schema, or sums up the stored analysis if there is one and no force is used. -/
def analyze (s : Session) (store : Store) (settings : Settings) (schema : String) (force : Bool)
    (subgraph : Option String) : Session × Outcome :=
  if (s.status? schema).isNone then (s, .usage)
  else if store.has s.files (s.identifier schema) && !force then
    (s, summarize s store (s.identifier schema))
  else analyzeAnew s store schema (labelFor subgraph settings)

/-- Removes all stored analyses. -/
def clear (s : Session) (store : Store) : Session × Outcome :=
  match store.clear s.files with
  | (files, .error fault) => ({ s with files }, .failed (.store fault))
  | (files, .ok ()) =>
    ({ s with files },
      .success [.message .debug ("Cleared " ++ store.path.text), .success "Cache cleared"])

end FederationGraph.CommandLine
