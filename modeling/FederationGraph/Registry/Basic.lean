import FederationGraph.Directive.Federation

/-!
# Registry

The object and interface types of a schema by name, and for each interface the
names of the types that implement it.
-/
namespace FederationGraph

/-- A field of a registered type. -/
structure SchemaField where
  name : String
  namedType : String
  isList : Bool
  isNonNull : Bool
  directives : List Directive
  federation : List FederationDirective
  deriving Inhabited

/-- A registered object or interface type, merged from all of its fragments. -/
structure SchemaType where
  name : String
  fields : OrderedMap SchemaField
  isInterface : Bool
  isExtension : Bool
  interfaces : List String
  keyFields : List String
  directives : List Directive
  deriving Inhabited

/-- The field with the finite parts of its directives. -/
def SchemaField.finitePart (f : SchemaField) : SchemaField where
  name := f.name
  namedType := f.namedType
  isList := f.isList
  isNonNull := f.isNonNull
  directives := f.directives.map Directive.finitePart
  federation := f.federation

/-- The type with the finite parts of its directives. -/
def SchemaType.finitePart (t : SchemaType) : SchemaType where
  name := t.name
  fields := t.fields.map SchemaField.finitePart
  isInterface := t.isInterface
  isExtension := t.isExtension
  interfaces := t.interfaces
  keyFields := t.keyFields
  directives := t.directives.map Directive.finitePart

/-- Types by name and implementing types by interface, in order of first mention. -/
structure Registry where
  types : OrderedMap SchemaType
  implementations : OrderedMap (List String)
  deriving Inhabited

namespace Registry

/-- The registry without types. -/
def empty : Registry := ⟨.empty, .empty⟩

/-- Whether a type is registered. -/
def contains (r : Registry) (name : String) : Bool := r.types.contains name

/-- The names listed as implementations of an interface. -/
def implementationsOf (r : Registry) (interface : String) : List String :=
  (r.implementations.get? interface).getD []

/-- Whether a registered type has a field of the given name. -/
def hasField (r : Registry) (typeName field : String) : Bool :=
  (r.types.get? typeName).any fun type => type.fields.contains field

/-- Whether a field is among the key fields of a registered type. -/
def isKeyField (r : Registry) (typeName field : String) : Bool :=
  (r.types.get? typeName).any fun type => type.keyFields.contains field

/-- The named type of a field of a registered type. -/
def fieldType? (r : Registry) (typeName field : String) : Option String :=
  (r.types.get? typeName).bind fun type => (type.fields.get? field).map SchemaField.namedType

end Registry

end FederationGraph
