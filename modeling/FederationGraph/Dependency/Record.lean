import FederationGraph.Dependency.Basic
import FederationGraph.Registry.Resolution

/-!
# Recording dependencies

Every type of a registry contributes the edges of its keys, then for each field
the edge to the field's own type and the edges of the field sets its directives
name. A required path starts at the type that declares the field; a provided
path starts at the type of the field. An edge to a key field of its owner is a
key edge whatever led there.
-/
namespace FederationGraph

namespace Registry

/-- The edges of one key path: the entity edge of an extension and the edge of an external key. -/
def keyDependenciesAt (subgraph : String) (type : SchemaType) (key : String) : List Dependency :=
  let edge (field : String) (kind : DependencyKind) : Dependency :=
    ⟨type.name, field, subgraph, type.name, key, kind, key⟩
  let external :=
    (type.fields.get? key).any fun field => field.federation.any FederationDirective.isExternal
  (if type.isExtension then [edge entityField .key] else []) ++
    (if external then [edge key .external] else [])

/-- The edges of a type's keys; nested key paths give none. -/
def keyDependencies (subgraph : String) (type : SchemaType) : List Dependency :=
  (type.keyFields.filter Path.isSingle).flatMap (keyDependenciesAt subgraph type)

/-- The edge from a field to its named type, if that is registered. -/
def fieldTypeDependency (r : Registry) (subgraph : String) (type : SchemaType)
    (field : SchemaField) : List Dependency :=
  if r.contains field.namedType then
    [⟨type.name, field.name, subgraph, field.namedType, field.name, .fieldType, field.name⟩]
  else []

/-- The type at which the paths of a field set start. -/
def startingType (type : SchemaType) (field : SchemaField) (kind : DependencyKind) : String :=
  if kind = .provides then field.namedType else type.name

/-- The edge to what a path of a field set resolves to. -/
def fieldSetDependency (r : Registry) (type : SchemaType) (field : SchemaField)
    (kind : DependencyKind) (subgraph path : String) (target : Resolution) : Dependency where
  dependingType := type.name
  dependingField := field.name
  dependingSubgraph := subgraph
  dependedType := target.owner
  dependedField := target.field
  kind := if r.isKeyField target.owner target.field then .key else kind
  fieldPath := path

/-- The edges of a field set, one for each resolution of each of its paths. -/
def fieldSetDependencies (r : Registry) (type : SchemaType) (field : SchemaField)
    (fieldSet : String) (kind : DependencyKind) (subgraph : String) : List Dependency :=
  (FieldSet.selections fieldSet).flatMap fun selection =>
    (r.resolve selection.path (startingType type field kind)).map
      (r.fieldSetDependency type field kind subgraph selection.path)

/-- A field set that a directive names, with what it stands for. -/
structure FieldSetUse where
  fieldSet : String
  kind : DependencyKind
  subgraph : String
  deriving DecidableEq, Repr

/-- A text that is present and not empty. -/
def nonEmpty? (text : Option String) : Option String := text.filter (· ≠ "")

/-- The field sets a federation directive on a field names, in the order they are recorded. The
ambient subgraph stands in for a graph that is not named. -/
def fieldSetUses (ambient : String) : FederationDirective → List FieldSetUse
  | .requires fields => [⟨fields, .requires, ambient⟩]
  | .provides fields => [⟨fields, .provides, ambient⟩]
  | .joinField graph requires provides _ =>
    let subgraph := (nonEmpty? graph).getD ambient
    ((nonEmpty? requires).map fun fields => ⟨fields, .requires, subgraph⟩).toList ++
      ((nonEmpty? provides).map fun fields => ⟨fields, .provides, subgraph⟩).toList
  | _ => []

/-- The edges of the directives of a field. -/
def directiveDependencies (r : Registry) (subgraph : String) (type : SchemaType)
    (field : SchemaField) : List Dependency :=
  (field.federation.flatMap (fieldSetUses subgraph)).flatMap fun use =>
    r.fieldSetDependencies type field use.fieldSet use.kind use.subgraph

/-- The edges of a field. -/
def fieldDependencies (r : Registry) (subgraph : String) (type : SchemaType)
    (field : SchemaField) : List Dependency :=
  r.fieldTypeDependency subgraph type field ++ r.directiveDependencies subgraph type field

/-- The edges of a type. -/
def typeDependencies (r : Registry) (subgraph : String) (type : SchemaType) : List Dependency :=
  keyDependencies subgraph type ++ type.fields.values.flatMap (r.fieldDependencies subgraph type)

/-- The edges of a registry, with `subgraph` as the ambient label. -/
def dependencies (r : Registry) (subgraph : String) : List Dependency :=
  r.types.values.flatMap (r.typeDependencies subgraph)

end Registry

end FederationGraph
