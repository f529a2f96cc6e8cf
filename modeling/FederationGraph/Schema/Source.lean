import FederationGraph.Analysis.Basic
import FederationGraph.Document.Excerpt
import FederationGraph.Files.Tree

/-!
# Schema sources

A schema is a file, or a folder of files with one of the schema suffixes. The
entries of a folder with such a name count, at any depth and in the order of
their paths, folders among them; a folder entry stands for all schema files
below it. Every file has to be a document of its own. The source of the schema
is the texts of its entries, each with a line end behind it.
-/
namespace FederationGraph.Schema

/-- The suffixes of schema files. -/
def suffixes : List String := [".graphql", ".graphqls", ".gql"]

/-- The suffix of a name: from its last point on, unless that is the first or the last
character. -/
def suffix (name : String) : String :=
  let behind := name.toList.reverse.takeWhile (· != '.')
  let before := name.toList.length - behind.length
  if 1 < before && !behind.isEmpty then String.ofList ('.' :: behind.reverse) else ""

/-- Whether a name has a schema suffix, the case being as given. -/
def isSchemaName (name : String) : Bool := suffixes.contains (suffix name)

/-- Whether a name ends like a schema file in any case. -/
def endsLikeSchema (name : String) : Bool :=
  suffixes.any fun ending => ending.toList.isSuffixOf (name.toList.map Char.toLower)

/-- Why a schema has no source. -/
inductive SourceFault where
  | noFiles (path : FilePath)
  | unreadable (fault : FileFault)
  | invalid (path : FilePath) (text : String) (fault : Document.Fault)
  | invalidWhole (fault : Document.Fault)
  deriving Inhabited

/-- The wording of a fault. -/
def SourceFault.message : SourceFault → String
  | .noFiles path => "No GraphQL schema files found in " ++ path.text
  | .unreadable fault => fault.message
  | .invalid path text fault => "Could not parse " ++ path.text ++ ": " ++ fault.messageIn text
  | .invalidWhole fault => "Could not parse <string>: " ++ fault.message

/-- The names below a folder, from there, that lead to an entry of a schema. -/
def entriesBelow (t : FileTree) (folder : Location) : List Location :=
  ((t.below folder).map Prod.fst |>.filter fun names => names.getLast?.any isSchemaName).mergeSort
    Location.before

/-- The entries of the schema at a path: what a folder holds, or else the path itself. -/
def entries (t : FileTree) (folder : Location) (path : FilePath) : List FilePath :=
  match (t.locate folder path).bind fun place => (t.nodeAt place).map fun node => (place, node) with
  | .ok (place, .folder) => (entriesBelow t place).map path.extend
  | _ => [path]

/-- Reads a schema file for the entry it belongs to; its text has to be a document. -/
def readFile (t : FileTree) (entry : FilePath) (file : Location) : Except SourceFault String :=
  match t.read file with
  | .error fault => .error (.unreadable fault)
  | .ok text =>
    match Document.read text with
    | .error fault => .error (.invalid entry text fault)
    | .ok _ => .ok text

/-- The schema files below a folder in the order of their written paths. -/
def filesBelow (t : FileTree) (folder : Location) : List Location :=
  let files := (t.below folder).filter fun (names, node) =>
    !node.isFolder && names.getLast?.any endsLikeSchema
  (files.map Prod.fst).mergeSort fun a b => "/".intercalate a ≤ "/".intercalate b

/-- The text of an entry. -/
def entryText (t : FileTree) (folder : Location) (entry : FilePath) :
    Except SourceFault String :=
  if t.leadsToFolder folder entry then
    let place := entry.resolve folder
    ((filesBelow t place).mapM fun names => readFile t entry (place ++ names)).map "\n".intercalate
  else readFile t entry (entry.resolve folder)

/-- The texts of entries one after the other. -/
def concatenated (texts : List String) : String := String.join (texts.map (· ++ "\n"))

/-- The source of the schema at a path. -/
def source (t : FileTree) (folder : Location) (path : FilePath) : Except SourceFault String :=
  match entries t folder path with
  | [] => .error (.noFiles path)
  | es => (es.mapM (entryText t folder)).map concatenated

end FederationGraph.Schema

namespace FederationGraph

/-- The analysis of the schema at a path, which is known by the path's location. -/
def Analysis.ofPath (t : FileTree) (folder : Location) (path : FilePath)
    (subgraph : Option String) (now : Instant) : Except Schema.SourceFault Analysis :=
  let place := path.resolve folder
  match Schema.source t folder (.ofLocation place) with
  | .error fault => .error fault
  | .ok source =>
    match Analysis.ofSource source (Location.text place) subgraph now with
    | .error fault => .error (.invalidWhole fault)
    | .ok analysis => .ok analysis

end FederationGraph
