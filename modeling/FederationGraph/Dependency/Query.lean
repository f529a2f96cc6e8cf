import FederationGraph.Analysis.Basic
import FederationGraph.Dependency.Leaf

/-!
# Queries

A query asks for the dependencies on a type, or on one of its fields. Only the
resolved type of a dependency counts, never its field's name alone. The selected
dependencies are then reduced to the leaves, so that what competes in the
reduction is what the query selects.
-/
namespace FederationGraph

/-- A question for the dependencies on a type. -/
structure Query where
  typeName : String
  /-- Only dependencies on this field. -/
  field : Option String
  /-- Only dependencies whose path has a single segment. -/
  direct : Bool
  /-- Also dependencies of the type's own fields. -/
  includeSameType : Bool
  deriving DecidableEq, Repr, Inhabited

namespace Query

/-- Whether a query selects a dependency. -/
def selects (q : Query) (d : Dependency) : Bool :=
  d.dependedType == q.typeName && q.field.all (d.dependedField == ·) &&
    (!q.direct || d.isDirect) && (q.includeSameType || d.dependingType != q.typeName)

/-- The dependencies a query selects, in order. -/
def select (q : Query) (ds : List Dependency) : List Dependency := ds.filter q.selects

end Query

/-- A type that an analysis does not know. -/
structure UnknownType where
  name : String
  deriving DecidableEq, Repr, Inhabited

/-- The message about an unknown type. -/
def UnknownType.message (e : UnknownType) : String :=
  "Type \x22" ++ e.name ++ "\x22 not found in schema"

namespace Analysis

/-- The type of a given name. -/
def type (a : Analysis) (name : String) : Except UnknownType SchemaType :=
  match a.registry.types.get? name with
  | some type => .ok type
  | none => .error ⟨name⟩

/-- The answer to a query. -/
def query (a : Analysis) (q : Query) : Except UnknownType (List Dependency) :=
  (a.type q.typeName).map fun _ => Dependency.reduce (q.select a.dependencies)

/-- The dependencies that a type takes part in on either side. -/
def dependenciesAround (a : Analysis) (name : String) : List Dependency :=
  a.dependencies.filter fun d => d.dependingType == name || d.dependedType == name

/-- What is told about a type: the type itself, with null for numbers that are not finite, and
the dependencies it takes part in. -/
structure Details where
  type : SchemaType
  dependencies : List Dependency
  deriving Inhabited

/-- What is told about a type of the analysis. -/
def details (a : Analysis) (name : String) : Except UnknownType Details :=
  (a.type name).map fun type => ⟨type.finitePart, a.dependenciesAround name⟩

end Analysis

end FederationGraph
