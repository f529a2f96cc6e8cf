import FederationGraph.Proofs.Store.Returning

/-!
# Analyses that are kept halfway

Keeping an analysis fails where a folder stands in place of its file, and then
nothing has changed. It also fails where the index is not to be read. By then the
file of the analysis is written, and it stays: the analysis is there from then on
in place of what was kept before, while no listing names it. The store is as it
was only if its file had the same text already.
-/
namespace FederationGraph.Store

open FileTree

variable {s : Store} {t after : FileTree} {a : Analysis} {fault : StoreFault}

/-- The folder of a store with nothing in it but an index that is not to be read. -/
def unreadable : FileTree :=
  ⟨[(["work"], .folder), (["work", "cache"], .folder),
    (["work", "cache", "index.json"], .file (.text "not json"))]⟩

end FederationGraph.Store
