import FederationGraph.Analysis.Reading
import FederationGraph.Digest.Md5
import FederationGraph.Files.Tree

/-!
# The store of analyses

Analyses are kept in a folder: a file for each schema, named after the digest of
its identifier, and an index that says of each identifier when it was analyzed
and how large the result was. The last analysis of an identifier wins.

Keeping an analysis writes its file first and the index after that. An index that
cannot be read stops it in between.
-/
namespace FederationGraph

/-- A store: the path of its folder, and the folder from which the path leads there. -/
structure Store where
  path : FilePath
  origin : Location
  deriving DecidableEq, Repr, Inhabited

/-- Why a store does not answer. -/
inductive StoreFault where
  | unknown (identifier : String)
  | nothingStored
  | file (fault : FileFault)
  | indexNotJson
  | indexNumber
  | indexTooDeep
  | indexNotObject (path : FilePath) (typeWord : String)
  | entryNotObject
  | refused (problems : List Problem)
  deriving DecidableEq, Repr, Inhabited

/-- The message where nothing is stored. -/
def nothingStoredMessage : String :=
  "No analyzed schemas found. Run \x22fgqldeps analyze <schema>\x22 first."

/-- The wording of a fault. -/
def StoreFault.message : StoreFault → String
  | .unknown identifier => "No stored analysis found for: " ++ identifier
  | .nothingStored => nothingStoredMessage
  | .file fault => fault.message
  | .indexNotJson => "The index is not JSON"
  | .indexNumber => "The index holds an integer of too many digits"
  | .indexTooDeep => "The index is nested too deeply"
  | .indexNotObject path word => "Expected JSON object in " ++ path.text ++ ", got " ++ word
  | .entryNotObject => "An index entry is not an object"
  | .refused _ => "A stored value does not have the expected shape"

/-- The word for the type of a value. -/
def Value.typeWord : Value → String
  | .null => "NoneType"
  | .boolean _ => "bool"
  | .integer _ => "int"
  | .float _ => "float"
  | .text _ => "str"
  | .list _ => "list"
  | .object _ => "dict"

/-- What the index says about an analysis. -/
structure IndexEntry where
  schemaIdentifier : String
  analyzedAt : String
  totalTypes : Int
  totalDependencies : Int
  deriving DecidableEq, Repr, Inhabited

/-- Reads an entry of the index. -/
def IndexEntry.ofValue : Value → Reading IndexEntry :=
  Reading.record fun m =>
    ((((Reading.done IndexEntry.mk).and (m.required "schemaIdentifier" Reading.text)).and
      (m.required "analyzedAt" Reading.text)).and (m.required "totalTypes" Reading.integer)).and
      (m.required "totalDependencies" Reading.integer)

/-- What is written into the index about an analysis. -/
def Metadata.indexValue (m : Metadata) : Value :=
  .object [("analyzedAt", .text m.analyzedAt.text), ("totalTypes", .integer m.totalTypes),
    ("totalDependencies", .integer m.totalDependencies)]

namespace Store

/-- Where the path of the store leads. -/
def place (s : Store) : Location := s.path.resolve s.origin

/-- The name of the index file. -/
def indexName : String := "index.json"

/-- The name of the file for an identifier. -/
def fileName (identifier : String) : String := Digest.md5 identifier ++ ".json"

/-- The location of a file of the store. -/
def file (s : Store) (name : String) : Location := s.place ++ [name]

/-- Whether there is a file of a given name. -/
def holds (s : Store) (t : FileTree) (name : String) : Bool :=
  t.leads s.origin (s.path.extend [name])

/-- Reads a file of the store. -/
def read (s : Store) (t : FileTree) (name : String) : Except StoreFault String :=
  (t.read (s.file name)).mapError .file

/-! ## The index -/

/-- The entries of the index, unread; a missing index has none. -/
def index (s : Store) (t : FileTree) : Except StoreFault (OrderedMap Value) :=
  if s.holds t indexName then
    (s.read t indexName).bind fun text =>
      match Json.read text with
      | .error .tooManyDigits => .error .indexNumber
      | .error .tooDeep => .error .indexTooDeep
      | .error _ => .error .indexNotJson
      | .ok (.object entries) => .ok (.ofList entries)
      | .ok other => .error (.indexNotObject (s.path.extend [indexName]) other.typeWord)
  else .ok .empty

/-- The text of an index. -/
def indexText (entries : OrderedMap Value) : String :=
  Json.text Json.listed (.object entries.entries)

/-- The entry of an identifier, whose own members may name another one. -/
def readEntry (identifier : String) (value : Value) : Except StoreFault IndexEntry :=
  match value with
  | .object members =>
    match IndexEntry.ofValue
        (.ofEntries (("schemaIdentifier", .text identifier) :: members)) with
    | .done entry => .ok entry
    | .refused problems => .error (.refused problems)
  | _ => .error .entryNotObject

/-- Whether an entry comes no later than another in a listing. -/
def noOlder (a b : IndexEntry) : Bool := b.analyzedAt ≤ a.analyzedAt

/-- The entries of the index, the ones with the greatest text for their time first and equal ones
in the order of the index. -/
def list (s : Store) (t : FileTree) : Except StoreFault (List IndexEntry) :=
  (s.index t).bind fun entries =>
    (entries.entries.mapM fun (identifier, value) => readEntry identifier value).map
      (List.mergeSort · noOlder)

/-! ## Analyses -/

/-- Whether an analysis of an identifier is stored. -/
def has (s : Store) (t : FileTree) (identifier : String) : Bool :=
  s.holds t (fileName identifier)

/-- The stored analysis of an identifier. -/
def get (s : Store) (t : FileTree) (identifier : String) : Except StoreFault Analysis :=
  if s.has t identifier then
    (s.read t (fileName identifier)).bind fun text =>
      match Analysis.ofStored text with
      | .done analysis => .ok analysis
      | .refused problems => .error (.refused problems)
  else .error (.unknown identifier)

/-- The analysis that a listing names first. -/
def mostRecent (s : Store) (t : FileTree) : Except StoreFault Analysis :=
  (s.list t).bind fun entries =>
    match entries with
    | [] => .error .nothingStored
    | entry :: _ => s.get t entry.schemaIdentifier

/-- The stored analysis of an identifier, or the most recent one if none is given. -/
def resolve (s : Store) (t : FileTree) (identifier : Option String) : Except StoreFault Analysis :=
  match Registry.nonEmpty? identifier with
  | some given => s.get t given
  | none => s.mostRecent t

/-- Writes a file of the store; a failure leaves the tree as it was. -/
def write (s : Store) (t : FileTree) (name text : String) : FileTree × Except StoreFault Unit :=
  match t.write (s.file name) text with
  | .ok t => (t, .ok ())
  | .error fault => (t, .error (.file fault))

/-- Enters an analysis into the index. -/
def enter (s : Store) (t : FileTree) (m : Metadata) : FileTree × Except StoreFault Unit :=
  match s.index t with
  | .error fault => (t, .error fault)
  | .ok entries =>
    s.write t indexName (indexText (entries.insert m.schemaIdentifier m.indexValue))

/-- Makes the folder of the store and the folders on the way to it. -/
def makeFolder (s : Store) (t : FileTree) : Except FileFault FileTree :=
  t.makeFolders (s.path.start s.origin) s.path.parts

/-- Keeps an analysis: makes the folder, writes the analysis and enters it into the index. -/
def put (s : Store) (t : FileTree) (a : Analysis) : FileTree × Except StoreFault Unit :=
  match s.makeFolder t with
  | .error fault => (t, .error (.file fault))
  | .ok t =>
    match s.write t (fileName a.metadata.schemaIdentifier) a.storedText with
    | (t, .error fault) => (t, .error fault)
    | (t, .ok ()) => s.enter t a.metadata

/-- Removes everything that is stored. A path that ends in no name does not let its folder be
removed; the folder is empty then. -/
def clear (s : Store) (t : FileTree) : FileTree × Except StoreFault Unit :=
  match t.reach s.origin s.path with
  | .error _ => (t, .ok ())
  | .ok (.file _) => (t, .error (.file .notFolder))
  | .ok .folder =>
    match s.path.parts.getLast? with
    | none => (t.removeBelow s.place, .error (.file .unremovable))
    | some last =>
      if last = parentPart then
        let t := t.removeBelow s.place
        if t.leads s.origin s.path then (t, .error (.file .unremovable))
        else (t, .error (.file .notFound))
      else (t.remove s.place, .ok ())

end Store

end FederationGraph
