import FederationGraph.Distinct
import FederationGraph.Document.Tree
import FederationGraph.Registry.Basic

/-!
# Merging fragments into a registry

Fragments of a type may come in any order, extensions ahead of definitions. Each
fragment is merged into the type of its name. A field that is defined again
keeps its place and takes the new content. A type counts as an extension as long
as nothing but extensions were seen, and as an interface once an interface
fragment was seen. Only types that are no interface at that moment join the
implementations of the interfaces a fragment names.

A registry is settled when each list of implementations follows the order in
which the types were first registered.
-/
namespace FederationGraph

/-- The field a definition gives. -/
def SchemaField.ofDefinition (d : FieldDefinition) : SchemaField where
  name := d.name
  namedType := d.type.namedType
  isList := d.type.isList
  isNonNull := d.type.isNonNull
  directives := d.directives
  federation := FederationDirective.ofDirectives d.directives

namespace SchemaType

/-- A type of which nothing is known but its name and what its first fragment is. -/
def unseen (name : String) (isExtension : Bool) : SchemaType :=
  ⟨name, .empty, false, isExtension, [], [], []⟩

/-- The type with a further fragment. -/
def absorb (type : SchemaType) (f : TypeFragment) : SchemaType where
  name := type.name
  fields := f.fields.foldl (fun fields d => fields.insert d.name (.ofDefinition d)) type.fields
  isInterface := type.isInterface || f.isInterface
  isExtension := type.isExtension && f.isExtension
  interfaces := appendAllNew type.interfaces f.interfaces
  keyFields :=
    type.keyFields ++ FederationDirective.keyPaths (FederationDirective.ofDirectives f.directives)
  directives := type.directives ++ f.directives

end SchemaType

namespace Registry

/-- The implementations of an interface after `type` has named it. -/
def enlist (type : SchemaType) (names : Option (List String)) : List String :=
  if type.isInterface then names.getD [] else appendNew (names.getD []) type.name

/-- The type a fragment contributes to, with the fragment merged in. -/
def merged (r : Registry) (f : TypeFragment) : SchemaType :=
  ((r.types.get? f.name).getD (.unseen f.name f.isExtension)).absorb f

/-- The registry with a further fragment. -/
def add (r : Registry) (f : TypeFragment) : Registry where
  types := r.types.insert f.name (r.merged f)
  implementations :=
    f.interfaces.foldl (fun index interface => index.alter interface (enlist (r.merged f)))
      r.implementations

/-- The registry with the fragments of a document. -/
def addDocument (r : Registry) (document : Document) : Registry := document.fragments.foldl add r

/-- Whether `a` was registered no later than `b`. -/
def registeredBefore (r : Registry) (a b : String) : Bool :=
  r.types.keys.idxOf a ≤ r.types.keys.idxOf b

/-- The registry with implementations in the order in which the types were registered. -/
def settle (r : Registry) : Registry where
  types := r.types
  implementations := r.implementations.map fun names => names.mergeSort r.registeredBefore

/-- The settled registry of a document. -/
def ofDocument (document : Document) : Registry := (empty.addDocument document).settle

end Registry

end FederationGraph
