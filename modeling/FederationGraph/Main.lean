import FederationGraph.CommandLine.Run
import Std.Time.DateTime.Timestamp

/-!
# The program

The outer layer takes a picture of the files that a command line names, runs the
command line on the picture, and carries the differences over to the disk.
-/
namespace FederationGraph

/-- The file or folder at a location of the disk, if there is one. -/
def diskNode? (place : Location) : IO (Option Node) := do
  let path := (← IO.currentDir) / place.text
  if !(← path.pathExists) then return none
  else if ← path.isDir then return some .folder
  else return some (.file (.ofBytes (← IO.FS.readBinFile path)))

/-- The tree with what the disk holds below a folder. -/
partial def withDiskBelow (t : FileTree) (folder : Location) : IO FileTree := do
  let path := (← IO.currentDir) / folder.text
  (← path.readDir).foldlM (fun t entry => do
    let place := folder ++ [entry.fileName]
    match ← diskNode? place with
    | none => return t
    | some node =>
      let t := t.put place node
      if node.isFolder then withDiskBelow t place else return t) t

/-- The tree with a location of the disk and the folders on the way. -/
def withWay (t : FileTree) (place : Location) : IO FileTree :=
  ((List.range place.length).map fun n => place.take (n + 1)).foldlM (fun t way => do
    match ← diskNode? way with
    | none => return t
    | some node => return t.put way node) t

/-- The tree with all locations of the disk that a path leads through from a folder, and what is
below the last one. -/
def withDisk (folder : Location) (t : FileTree) (p : FilePath) : IO FileTree := do
  let t ← (List.range (p.parts.length + 1)).foldlM (fun t n =>
    withWay t ((FilePath.mk p.anchor (p.parts.take n)).resolve folder)) t
  let place := p.resolve folder
  match t.node? place with
  | some .folder => withDiskBelow t place
  | _ => return t

/-- The texts in a word that may be paths. -/
def pathTexts (word : String) : List String :=
  let behindSign := String.ofList (word.toList.dropWhile (· != '=')).tail
  let behindLetter := String.ofList (word.toList.drop 2)
  word :: [behindSign, behindLetter].filter (· != "")

/-- Whether two nodes are the same. -/
def sameNode : Node → Node → Bool
  | .folder, .folder => true
  | .file (.text a), .file (.text b) => a == b
  | .file (.bytes a), .file (.bytes b) => a == b
  | _, _ => false

/-- Carries the difference between two trees over to the disk. -/
def saveChanges (before after : FileTree) : IO Unit := do
  for (place, node) in before.nodes do
    if (after.node? place).isNone then
      let path := (← IO.currentDir) / place.text
      if ← path.pathExists then
        if node.isFolder then IO.FS.removeDirAll path else IO.FS.removeFile path
  for (place, node) in after.nodes do
    if !(before.node? place).any (sameNode node) then
      match node with
      | .folder => IO.FS.createDirAll place.text
      | .file (.text text) => IO.FS.writeFile place.text text
      | .file (.bytes bytes) => IO.FS.writeBinFile place.text bytes

/-- The present instant. -/
def present : IO Instant := do
  let stamp ← Std.Time.Timestamp.now
  let nanoseconds := stamp.toNanosecondsSinceUnixEpoch.val
  return .ofSeconds (nanoseconds.fdiv 1000000000) ((nanoseconds.fmod 1000000000).toNat / 1000)

/-- The file with a line for each user. -/
def accountsFile : String := "/etc/passwd"

/-- The home folders on this machine. -/
def machineHomes : IO Homes := do
  let own := FilePath.ofText ((← IO.getEnv "HOME").getD "/")
  let lines ← try IO.FS.lines accountsFile catch _ => pure #[]
  return ⟨own, lines.toList.filterMap Homes.ofAccount?⟩

/-- The session that the disk makes up for a command line. -/
def openSession (words : List String) : IO CommandLine.Session := do
  let folder := (FilePath.ofText (← IO.currentDir).toString).resolve []
  let paths := (words.flatMap pathTexts).map FilePath.ofText
  let files ← paths.foldlM (withDisk folder) (← withWay .empty folder)
  let session : CommandLine.Session := ⟨files, folder, ← machineHomes, ← present⟩
  match CommandLine.storeFor? session words with
  | none => return session
  | some store => return { session with files := ← withDisk folder files store.path }

/-- Runs a command line on the disk. -/
def program (words : List String) : IO UInt32 := do
  let session ← openSession words
  let (after, report) := CommandLine.run session words
  saveChanges session.files after.files
  report.lines.forM IO.println
  match report.ending with
  | .success | .stopped => pure ()
  | .usage => IO.eprintln CommandLine.Command.helpText
  | .failed failure => IO.eprintln ("Error: " ++ failure.message)
  return report.ending.code.toUInt32

end FederationGraph

/-- Runs the program. -/
def main (words : List String) : IO UInt32 := FederationGraph.program words
