import FederationGraph.Directive.Basic

/-!
# Documents

What a schema document says about object and interface types. Each definition or
extension of such a type is one fragment of it. Definitions of any other kind
are checked when a document is read and keep nothing but their place.
-/
namespace FederationGraph

/-- A reference to a type, as it stands behind a field. -/
inductive TypeReference where
  | named (name : String)
  | list (item : TypeReference)
  | nonNull (inner : TypeReference)
  deriving DecidableEq, Repr, Inhabited

namespace TypeReference

/-- The innermost name. -/
def namedType : TypeReference → String
  | .named name => name
  | .list item => item.namedType
  | .nonNull inner => inner.namedType

/-- Whether the outermost type is a list, under a non-null mark or without one. -/
def isList : TypeReference → Bool
  | .list _ => true
  | .nonNull (.list _) => true
  | _ => false

/-- Whether the outermost type carries a non-null mark. -/
def isNonNull : TypeReference → Bool
  | .nonNull _ => true
  | _ => false

end TypeReference

/-- A field as a fragment defines it. -/
structure FieldDefinition where
  name : String
  type : TypeReference
  directives : List Directive
  deriving Inhabited

/-- One definition or extension of an object or interface type. -/
structure TypeFragment where
  name : String
  isInterface : Bool
  isExtension : Bool
  interfaces : List String
  directives : List Directive
  fields : List FieldDefinition
  deriving Inhabited

/-- A definition of a document. -/
inductive Definition where
  | fragment (fragment : TypeFragment)
  | other
  deriving Inhabited

/-- The fragment a definition contributes. -/
def Definition.fragment? : Definition → Option TypeFragment
  | .fragment f => some f
  | .other => none

/-- A document is its definitions in order. -/
abbrev Document := List Definition

/-- The type fragments of a document in order. -/
def Document.fragments (document : Document) : List TypeFragment :=
  document.filterMap Definition.fragment?

end FederationGraph
