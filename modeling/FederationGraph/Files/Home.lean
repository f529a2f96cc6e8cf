import FederationGraph.Files.Path

/-!
# Home folders

A tilde as the first part of a path stands for one's own home folder, and a tilde
with a name behind it for that of another user. No path leads to a home that is
not known.
-/
namespace FederationGraph

/-- The home folders on a machine: one's own, and those of users by name. -/
structure Homes where
  own : FilePath
  ofUsers : List (String × FilePath)
  deriving Inhabited

namespace Homes

/-- The home folder of a user; nobody is oneself. -/
def folder? (homes : Homes) (user : String) : Option FilePath :=
  if user.isEmpty then some homes.own else homes.ofUsers.lookup user

/-- The name of a user and the home folder, from a line of an accounts file. -/
def ofAccount? (line : String) : Option (String × FilePath) :=
  match (line.toList.splitOn ':').map String.ofList with
  | user :: _ :: _ :: _ :: _ :: folder :: _ => some (user, FilePath.ofText folder)
  | _ => none

end Homes

/-- The user at whose home folder a path starts, if it does; nobody is oneself. -/
def FilePath.user? (p : FilePath) : Option String :=
  match p.anchor, p.parts.map String.toList with
  | .relative, ('~' :: user) :: _ => some (String.ofList user)
  | _, _ => none

/-- The path from the root, if it starts at a home folder; otherwise the path itself. -/
def FilePath.expand? (p : FilePath) (homes : Homes) : Option FilePath :=
  match p.user? with
  | some user => (homes.folder? user).map fun folder => folder.extend (p.parts.drop 1)
  | none => some p

end FederationGraph
