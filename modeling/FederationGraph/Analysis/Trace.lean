import FederationGraph.Analysis.Basic
import FederationGraph.Decimal.Digits

/-!
# The trace of an analysis

What an analysis came across, in the order in which it did: types seen for the
first time, directives without their field set, types that were only extended,
and paths that lead nowhere.
-/
namespace FederationGraph

/-- Something an analysis came across. -/
inductive Event where
  | registered (name : String) (isExtension : Bool)
  | skipped (directive : String)
  | onlyExtended (names : List String)
  | unresolved (path start segment : String)
  | dropped (kind : DependencyKind) (path typeName field : String)
  | analyzed (identifier : String) (types dependencies : Nat)
  deriving DecidableEq, Repr, Inhabited

namespace Event

/-- The wording of an event. -/
def message : Event → String
  | .registered name isExtension =>
    "Registered " ++ (if isExtension then "extension of " else "") ++ "type " ++ name
  | .skipped directive =>
    "Skipping @" ++ directive ++ " without a string \x27fields\x27 argument"
  | .onlyExtended names => "Types only seen as extensions: " ++ ", ".intercalate names
  | .unresolved path start segment =>
    "Cannot resolve \x27" ++ path ++ "\x27 from " ++ start ++ ": no owner for \x27" ++ segment ++
      "\x27"
  | .dropped kind path typeName field =>
    "Dropping @" ++ kind.word ++ " path \x27" ++ path ++ "\x27 of " ++ typeName ++ "." ++ field ++
      ": unresolved"
  | .analyzed identifier types dependencies =>
    "Analyzed " ++ identifier ++ ": " ++ Decimal.text types ++ " types, " ++
      Decimal.text dependencies ++ " dependencies"

end Event

namespace Registry

/-- The directives that lack the field set they need. -/
def skippedEvents (directives : List Directive) : List Event :=
  (directives.filter fun d =>
    Directive.takesFields d.name && (d.textArgument? "fields").isNone).map fun d => .skipped d.name

/-- The events of merging a fragment. -/
def fragmentEvents (r : Registry) (f : TypeFragment) : List Event :=
  (if r.contains f.name then [] else [.registered f.name f.isExtension]) ++
    f.fields.flatMap (fun d => skippedEvents d.directives) ++ skippedEvents f.directives

/-- The events of merging fragments one after the other. -/
def mergeEvents (r : Registry) : List TypeFragment → List Event
  | [] => []
  | f :: rest => r.fragmentEvents f ++ mergeEvents (r.add f) rest

/-- The event of settling a registry, if some of its types were only extended. -/
def settleEvents (r : Registry) : List Event :=
  let names := (r.types.entries.filter fun entry => entry.2.isExtension).map Prod.fst
  if names.isEmpty then [] else [.onlyExtended names]

/-- The segment at which a walk has no type left to go on from. -/
def stuckAt (r : Registry) (cursors : List String) : List String → Option String
  | [] => none
  | [last] => if (r.walk cursors [last]).isEmpty then some last else none
  | segment :: rest =>
    let reached := r.follow cursors segment
    if reached.isEmpty then some segment else stuckAt r reached rest

/-- The events of resolving a path of a field set. -/
def pathEvents (r : Registry) (type : SchemaType) (field : SchemaField) (kind : DependencyKind)
    (path : String) : List Event :=
  let start := startingType type field kind
  match r.stuckAt [start] (Path.segments path) with
  | some segment =>
    [.unresolved path start segment, .dropped kind path type.name field.name]
  | none => []

/-- The events of recording the dependencies of a field's directives. -/
def recordEvents (r : Registry) (subgraph : String) (type : SchemaType) (field : SchemaField) :
    List Event :=
  (field.federation.flatMap (fieldSetUses subgraph)).flatMap fun use =>
    (FieldSet.selections use.fieldSet).flatMap fun selection =>
      r.pathEvents type field use.kind selection.path

end Registry

/-- The events of the analysis of a document. -/
def Analysis.trace (document : Document) (identifier subgraph : String) : List Event :=
  let merged := Registry.empty.addDocument document
  let registry := merged.settle
  Registry.empty.mergeEvents document.fragments ++ merged.settleEvents ++
    registry.types.values.flatMap (fun type =>
      type.fields.values.flatMap (registry.recordEvents subgraph type)) ++
    [.analyzed identifier registry.types.size (registry.dependencies subgraph).length]

end FederationGraph
