/-!
# File paths

A path is read from its text without looking at any file: empty parts and single
points vanish, parents stay. Two slashes at the front, no more and no fewer, are
a root of their own. A location is where a path leads: the names from the root.
-/
namespace FederationGraph

/-- Where a path starts. -/
inductive Anchor where
  | relative
  | root
  | doubleRoot
  deriving DecidableEq, Repr, Inhabited

/-- How an anchor is written. -/
def Anchor.text : Anchor → String
  | .relative => ""
  | .root => "/"
  | .doubleRoot => "//"

/-- A path: its anchor and the parts between its slashes. -/
structure FilePath where
  anchor : Anchor
  parts : List String
  deriving DecidableEq, Repr, Inhabited

/-- The names from the root to a file or folder. -/
abbrev Location := List String

/-- The part that leads to the folder above. -/
def parentPart : String := ".."

namespace FilePath

/-- Whether a part between slashes says where to go. -/
def isPart (part : String) : Bool := part != "" && part != "."

/-- The anchor at the front of a text. -/
def anchorOf : List Char → Anchor
  | '/' :: '/' :: '/' :: _ => .root
  | '/' :: '/' :: _ => .doubleRoot
  | '/' :: _ => .root
  | _ => .relative

/-- Reads a path. -/
def ofText (text : String) : FilePath :=
  ⟨anchorOf text.toList, ((text.toList.splitOn '/').map String.ofList).filter isPart⟩

/-- The text of a path. -/
def text (p : FilePath) : String :=
  if p.anchor = .relative && p.parts.isEmpty then "."
  else p.anchor.text ++ "/".intercalate p.parts

/-- The path with further parts. -/
def extend (p : FilePath) (parts : List String) : FilePath := ⟨p.anchor, p.parts ++ parts⟩

/-- The path of a location. -/
def ofLocation (location : Location) : FilePath := ⟨.root, location⟩

/-- Where a path starts when it is followed from a folder. -/
def start (p : FilePath) (folder : Location) : Location :=
  if p.anchor = .relative then folder else []

/-- Where a path leads from a folder when every part is taken at its word. -/
def resolve (p : FilePath) (folder : Location) : Location :=
  p.parts.foldl (fun here part => if part = parentPart then here.dropLast else here ++ [part])
    (p.start folder)

end FilePath

/-- The text of a location. -/
def Location.text (location : Location) : String := (FilePath.ofLocation location).text

/-- The order of locations, name by name. -/
def Location.before : Location → Location → Bool
  | [], _ => true
  | _ :: _, [] => false
  | a :: as, b :: bs => if a = b then Location.before as bs else a < b

end FederationGraph
