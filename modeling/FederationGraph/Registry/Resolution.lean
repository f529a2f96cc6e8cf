import FederationGraph.Distinct
import FederationGraph.Path
import FederationGraph.Registry.Basic

/-!
# Resolving paths

A field selected on an object type is owned by that type. A field selected on an
interface is owned by each implementation that defines it, and by the interface
itself only when no implementation does. Walking a path keeps a list of the
types reached so far without repetitions; branches on which a type or field is
missing end.
-/
namespace FederationGraph

/-- The owner of a path's last segment, that segment and the field's named type. -/
structure Resolution where
  owner : String
  field : String
  fieldType : String
  deriving DecidableEq, Repr, Inhabited

namespace Registry

/-- The implementations of an interface that define a field. -/
def definingImplementations (r : Registry) (interface field : String) : List String :=
  (r.implementationsOf interface).filter fun name => r.hasField name field

/-- The names of the types that own a field selected on a type. -/
def owners (r : Registry) (typeName field : String) : List String :=
  match r.types.get? typeName with
  | none => []
  | some type =>
    let implementations :=
      if type.isInterface then r.definingImplementations typeName field else []
    if implementations.isEmpty then
      if type.fields.contains field then [typeName] else []
    else implementations

/-- What a field selected on a type resolves to. -/
def resolveField (r : Registry) (field typeName : String) : List Resolution :=
  (r.owners typeName field).filterMap fun owner =>
    (r.fieldType? owner field).map fun fieldType => ⟨owner, field, fieldType⟩

/-- The types reached through a field selected on each of the given types. -/
def follow (r : Registry) (cursors : List String) (field : String) : List String :=
  distinct (cursors.flatMap fun cursor => (r.resolveField field cursor).map Resolution.fieldType)

/-- What the last of the given segments resolves to from any of the given types. -/
def walk (r : Registry) (cursors : List String) : List String → List Resolution
  | [] => []
  | [last] => distinct (cursors.flatMap (r.resolveField last))
  | segment :: rest => walk r (r.follow cursors segment) rest

/-- What a dotted path resolves to from a type. -/
def resolve (r : Registry) (path start : String) : List Resolution :=
  r.walk [start] (Path.segments path)

end Registry

end FederationGraph
