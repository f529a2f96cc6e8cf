import FederationGraph.Path

/-!
# Dependencies

One edge of the graph: a field of a type needs a field of a type. The edge
carries the subgraph it is attributed to, the reason for it, and the path that
led from the one to the other.
-/
namespace FederationGraph

/-- Why a field needs another. -/
inductive DependencyKind where
  | requires
  | provides
  | key
  | external
  | fieldType
  deriving DecidableEq, Repr, Inhabited

namespace DependencyKind

/-- The word for a kind. -/
def word : DependencyKind → String
  | .requires => "requires"
  | .provides => "provides"
  | .key => "key"
  | .external => "external"
  | .fieldType => "field_type"

/-- All kinds. -/
def all : List DependencyKind := [.requires, .provides, .key, .external, .fieldType]

/-- The kind a word stands for. -/
def ofWord? (word : String) : Option DependencyKind := all.find? fun kind => kind.word == word

theorem ofWord?_word (kind : DependencyKind) : ofWord? kind.word = some kind := by
  cases kind <;> decide

end DependencyKind

/-- The depending field of a type's entity look-up, which no field of the schema stands for. -/
def entityField : String := "_entity"

/-- `dependingType.dependingField` needs `dependedType.dependedField`. -/
structure Dependency where
  dependingType : String
  dependingField : String
  dependingSubgraph : String
  dependedType : String
  dependedField : String
  kind : DependencyKind
  fieldPath : String
  deriving DecidableEq, Repr, Inhabited

namespace Dependency

/-- What a reduction keeps apart: the depending field and its subgraph. -/
structure Group where
  dependingType : String
  dependingField : String
  dependingSubgraph : String
  deriving DecidableEq, Repr

/-- The group of a dependency. -/
def group (d : Dependency) : Group := ⟨d.dependingType, d.dependingField, d.dependingSubgraph⟩

/-- Everything about a dependency but its path. -/
structure Identity where
  group : Group
  dependedType : String
  dependedField : String
  kind : DependencyKind
  deriving DecidableEq, Repr

/-- The identity of a dependency; two with the same one differ by their paths at most. -/
def identity (d : Dependency) : Identity := ⟨d.group, d.dependedType, d.dependedField, d.kind⟩

/-- Whether the path has a single segment. -/
def isDirect (d : Dependency) : Bool := Path.isSingle d.fieldPath

end Dependency

end FederationGraph
