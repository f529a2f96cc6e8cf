import FederationGraph.Dependency.Query
import FederationGraph.Json.Writer

/-!
# The format of analyses

An analysis as a value: an object whose members have names in camel case and
stand in a fixed order. Its text is the stored form of that value.
-/
namespace FederationGraph

/-- A list of texts as a value. -/
def Value.texts (names : List String) : Value := .list (names.map .text)

/-- A text that may be missing, as a value. -/
def Value.optionalText : Option String → Value
  | some s => .text s
  | none => .null

/-- A directive as a value. -/
def Directive.toValue (d : Directive) : Value :=
  .object [("name", .text d.name), ("arguments", .object d.arguments.entries)]

/-- Several directives as a value. -/
def Directive.listToValue (ds : List Directive) : Value := .list (ds.map Directive.toValue)

/-- The word by which the values of a federation directive are told apart. -/
def FederationDirective.kindWord : FederationDirective → String
  | .key _ => "key"
  | .external => "external"
  | .requires _ => "requires"
  | .provides _ => "provides"
  | .joinField _ _ _ _ => "join__field"
  | .joinType _ _ => "join__type"

/-- The members of a federation directive behind its kind. -/
def FederationDirective.contents : FederationDirective → Members
  | .key fields => [("fields", .text fields)]
  | .external => []
  | .requires fields => [("fields", .text fields)]
  | .provides fields => [("fields", .text fields)]
  | .joinField graph required provided marked =>
    [("graph", .optionalText graph), ("requires", .optionalText required),
      ("provides", .optionalText provided), ("external", .boolean marked)]
  | .joinType graph fields => [("graph", .optionalText graph), ("key", .optionalText fields)]

/-- A federation directive as a value. -/
def FederationDirective.toValue (d : FederationDirective) : Value :=
  .object (("kind", .text d.kindWord) :: d.contents)

/-- A field as a value. -/
def SchemaField.toValue (f : SchemaField) : Value :=
  .object [("name", .text f.name), ("namedType", .text f.namedType),
    ("isList", .boolean f.isList), ("isNonNull", .boolean f.isNonNull),
    ("directives", Directive.listToValue f.directives),
    ("federationDirectives", .list (f.federation.map FederationDirective.toValue))]

/-- The members of a type. -/
def SchemaType.members (t : SchemaType) : Members :=
  [("name", .text t.name), ("fields", .object (t.fields.map SchemaField.toValue).entries),
    ("isInterface", .boolean t.isInterface), ("isExtension", .boolean t.isExtension),
    ("interfaces", .texts t.interfaces), ("keyFields", .texts t.keyFields),
    ("directives", Directive.listToValue t.directives)]

/-- A type as a value. -/
def SchemaType.toValue (t : SchemaType) : Value := .object t.members

/-- A dependency as a value. -/
def Dependency.toValue (d : Dependency) : Value :=
  .object [("dependingType", .text d.dependingType), ("dependingField", .text d.dependingField),
    ("dependingSubgraph", .text d.dependingSubgraph), ("dependedType", .text d.dependedType),
    ("dependedField", .text d.dependedField), ("directive", .text d.kind.word),
    ("fieldPath", .text d.fieldPath)]

/-- Several dependencies as a value. -/
def Dependency.listToValue (ds : List Dependency) : Value := .list (ds.map Dependency.toValue)

/-- What is known about an analysis, as a value. -/
def Metadata.toValue (m : Metadata) : Value :=
  .object [("analyzedAt", .text m.analyzedAt.zonedText),
    ("schemaIdentifier", .text m.schemaIdentifier), ("subgraph", .text m.subgraph),
    ("totalTypes", .integer m.totalTypes), ("totalDependencies", .integer m.totalDependencies)]

namespace Analysis

/-- An analysis as a value. -/
def toValue (a : Analysis) : Value :=
  .object [("types", .object (a.registry.types.map SchemaType.toValue).entries),
    ("implementations", .object (a.registry.implementations.map Value.texts).entries),
    ("dependencies", Dependency.listToValue a.dependencies),
    ("metadata", a.metadata.toValue)]

/-- The text under which an analysis is stored. -/
def storedText (a : Analysis) : String := Json.text Json.stored a.toValue

/-- What is told about a type, as a value. -/
def Details.toValue (d : Details) : Value :=
  .object (d.type.members ++ [("dependencies", Dependency.listToValue d.dependencies)])

end Analysis

end FederationGraph
