import FederationGraph.Dependency.Basic

/-!
# Leaf reduction

Among dependencies that differ by their paths alone, the first one with the
longest path stands for all. Of those, the ones whose path is continued by the
path of another in the same group are left out, so that only the leaves of each
field set remain. What remains keeps its order.
-/
namespace FederationGraph.Dependency

/-- Whether `d` has a longer path than the dependency found so far, if any. -/
def improves (found : Option Dependency) (d : Dependency) : Bool :=
  match found with
  | none => true
  | some e => e.fieldPath.length < d.fieldPath.length

/-- The chosen dependencies after a further one: it takes the place of the one with its identity
if its path is longer, and comes last if there is none. -/
def choose (chosen : List (Nat × Dependency)) (new : Nat × Dependency) : List (Nat × Dependency) :=
  if improves ((chosen.find? fun old => old.2.identity = new.2.identity).map Prod.snd) new.2 then
    chosen.filter (fun old => old.2.identity ≠ new.2.identity) ++ [new]
  else chosen

/-- For each identity the first dependency with the longest path, with its position. -/
def longest (ds : List Dependency) : List (Nat × Dependency) :=
  (ds.zipIdx.map Prod.swap).foldl choose []

/-- Whether the path of `d` is continued by that of a dependency in the same group. -/
def isContinued (chosen : List (Nat × Dependency)) (d : Dependency) : Bool :=
  chosen.any fun other =>
    other.2.group = d.group && Path.continues d.fieldPath other.2.fieldPath

/-- The positions of the dependencies that a reduction keeps, in increasing order. -/
def keptPositions (ds : List Dependency) : List Nat :=
  let chosen := longest ds
  let leaves := (chosen.filter fun entry => !isContinued chosen entry.2).map Prod.fst
  (List.range ds.length).filter fun i => leaves.contains i

/-- The dependencies that a reduction keeps, in order. -/
def reduce (ds : List Dependency) : List Dependency := (keptPositions ds).filterMap fun i => ds[i]?

end FederationGraph.Dependency
