import FederationGraph.Files.Path
import FederationGraph.Text.Lines

/-!
# File trees

The folders and files of a machine by their locations. A path that does not lead
anywhere has a reason: a name is missing, or a file stands where a folder should.
Reading a file gives its text with unified line ends, unless its bytes are no
text.
-/
namespace FederationGraph

/-- What a file holds: a text, or bytes that are none. -/
inductive Contents where
  | text (text : String)
  | bytes (bytes : ByteArray)
  deriving Inhabited

/-- The contents that bytes make up. -/
def Contents.ofBytes (bytes : ByteArray) : Contents :=
  match String.fromUTF8? bytes with
  | some s => .text s
  | none => .bytes bytes

/-- What stands at a location. -/
inductive Node where
  | folder
  | file (contents : Contents)
  deriving Inhabited

/-- Whether a node is a folder. -/
def Node.isFolder : Node → Bool
  | .folder => true
  | .file _ => false

/-- Why a file cannot be reached, read or made. -/
inductive FileFault where
  | notFound
  | notFolder
  | isFolder
  | taken
  | notText
  | unremovable
  deriving DecidableEq, Repr, Inhabited

/-- The wording of a fault. -/
def FileFault.message : FileFault → String
  | .notFound => "No such file or directory"
  | .notFolder => "Not a directory"
  | .isFolder => "Is a directory"
  | .taken => "File exists"
  | .notText => "Not a text"
  | .unremovable => "Not to be removed by this path"

/-- Nodes by location; the root is a folder without being listed. -/
structure FileTree where
  nodes : List (Location × Node)
  deriving Inhabited

namespace FileTree

/-- The tree without files. -/
def empty : FileTree := ⟨[]⟩

/-- What stands at a location. -/
def node? (t : FileTree) (location : Location) : Option Node :=
  if location.isEmpty then some .folder else t.nodes.lookup location

/-- Puts a node at a location, in place of what was there. -/
def put (t : FileTree) (location : Location) (node : Node) : FileTree :=
  ⟨t.nodes.filter (fun entry => entry.1 != location) ++ [(location, node)]⟩

/-- What stands strictly below a location, with the names from there. -/
def below (t : FileTree) (location : Location) : List (Location × Node) :=
  t.nodes.filterMap fun (place, node) =>
    if location.isPrefixOf place && place.length != location.length then
      some (place.drop location.length, node)
    else none

/-- The tree without what stands at a location or below it. -/
def remove (t : FileTree) (location : Location) : FileTree :=
  ⟨t.nodes.filter fun entry => !location.isPrefixOf entry.1⟩

/-- The tree without what stands below a location. -/
def removeBelow (t : FileTree) (location : Location) : FileTree :=
  ⟨t.nodes.filter fun entry => !location.isPrefixOf entry.1 || entry.1 == location⟩

/-- The location one part further. -/
def step (here : Location) (part : String) : Location :=
  if part = parentPart then here.dropLast
  else if FilePath.isPart part then here ++ [part]
  else here

/-- Where parts lead from a location when every folder on the way has to be there. -/
def walk (t : FileTree) (here : Location) : List String → Except FileFault Location
  | [] => .ok here
  | part :: rest =>
    match t.node? here with
    | none => .error .notFound
    | some (.file _) => .error .notFolder
    | some .folder => walk t (step here part) rest

/-- Where a path leads from a folder. -/
def locate (t : FileTree) (folder : Location) (p : FilePath) : Except FileFault Location :=
  t.walk (p.start folder) p.parts

/-- What stands at a location that has to be there. -/
def nodeAt (t : FileTree) (location : Location) : Except FileFault Node :=
  match t.node? location with
  | some node => .ok node
  | none => .error .notFound

/-- What a path leads to from a folder. -/
def reach (t : FileTree) (folder : Location) (p : FilePath) : Except FileFault Node :=
  (t.locate folder p).bind t.nodeAt

/-- What the text of a path leads to from a folder, if anything. Here a slash behind the last name
asks for a folder, and the empty text leads nowhere. -/
def status? (t : FileTree) (folder : Location) (text : String) : Option Node :=
  if text = "" then none
  else
    let start := if FilePath.anchorOf text.toList = .relative then folder else []
    ((t.walk start ((text.toList.splitOn '/').map String.ofList)).bind t.nodeAt).toOption

/-- Whether a path leads to a file or a folder. -/
def leads (t : FileTree) (folder : Location) (p : FilePath) : Bool :=
  match t.reach folder p with
  | .ok _ => true
  | .error _ => false

/-- Whether a path leads to a folder. -/
def leadsToFolder (t : FileTree) (folder : Location) (p : FilePath) : Bool :=
  match t.reach folder p with
  | .ok node => node.isFolder
  | .error _ => false

/-- The text of a file's contents with unified line ends. -/
def textOf : Node → Except FileFault String
  | .folder => .error .isFolder
  | .file (.text text) => .ok (String.ofList (Text.unifyLineEnds text.toList))
  | .file (.bytes _) => .error .notText

/-- Reads the file at a location. -/
def read (t : FileTree) (location : Location) : Except FileFault String :=
  (t.reach [] (.ofLocation location)).bind textOf

/-- Writes a text to the file at a location; its folder has to be there. -/
def write (t : FileTree) (location : Location) (text : String) : Except FileFault FileTree :=
  match t.walk [] location with
  | .error fault => .error fault
  | .ok _ =>
    match t.node? location with
    | some .folder => .error .isFolder
    | _ => .ok (t.put location (.file (.text text)))

/-- Makes the folders on the way from a location along parts, and the last one. -/
def makeFolders (t : FileTree) (here : Location) : List String → Except FileFault FileTree
  | [] => .ok t
  | part :: rest =>
    if part = parentPart then makeFolders t here.dropLast rest
    else
      let place := here ++ [part]
      match t.node? place with
      | none => makeFolders (t.put place .folder) place rest
      | some .folder => makeFolders t place rest
      | some (.file _) => .error (if rest.isEmpty then .taken else .notFolder)

end FileTree

end FederationGraph
