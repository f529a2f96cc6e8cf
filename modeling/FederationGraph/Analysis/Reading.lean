import FederationGraph.Analysis.Format
import FederationGraph.Json.Reader
import FederationGraph.Reading.Scalar

/-!
# Reading analyses back

The reading of an analysis from a value of its format. Members may stand in any
order, unknown ones are passed over, and those that have a default may be left
out. Problems are listed in the order of the format.
-/
namespace FederationGraph

open Reading

/-- Any value at all. -/
def Reading.anything (v : Value) : Reading Value := .done v.merged

/-- Reads a directive. -/
def Directive.ofValue : Value → Reading Directive :=
  record fun m =>
    ((Reading.done Directive.mk).and (m.required "name" text)).and
      (m.defaulted "arguments" .empty (dictionary anything))

/-- Reads a list of directives that may be left out. -/
def Directive.listOfMember (m : Members) : Reading (List Directive) :=
  m.defaulted "directives" [] (list Directive.ofValue)

namespace FederationDirective

/-- A text that may be null or left out. -/
def optionalMember (m : Members) (name : String) : Reading (Option String) :=
  m.defaulted name none (optional text)

/-- Reads the members behind each kind. -/
def readers : List (String × (Members → Reading FederationDirective)) :=
  [("key", fun m => (Reading.done FederationDirective.key).and (m.required "fields" text)),
    ("external", fun _ => .done .external),
    ("requires", fun m => (Reading.done FederationDirective.requires).and
      (m.required "fields" text)),
    ("provides", fun m => (Reading.done FederationDirective.provides).and
      (m.required "fields" text)),
    ("join__field", fun m =>
      ((((Reading.done FederationDirective.joinField).and (optionalMember m "graph")).and
        (optionalMember m "requires")).and (optionalMember m "provides")).and
        (m.defaulted "external" false boolean)),
    ("join__type", fun m =>
      ((Reading.done FederationDirective.joinType).and (optionalMember m "graph")).and
        (optionalMember m "key"))]

/-- Reads a federation directive. Its kind has to be known; what is wrong behind the kind lies
under the kind's word. -/
def ofValue : Value → Reading FederationDirective
  | .object entries =>
    let members := Members.merged entries
    match members.lookup "kind" with
    | none => refuse .tagNotFound
    | some (.text word) =>
      match readers.lookup word with
      | some read => (read members).under word
      | none => refuse .tagInvalid
    | some _ => refuse .tagInvalid
  | _ => refuse .dictType

end FederationDirective

/-- Reads a field. -/
def SchemaField.ofValue : Value → Reading SchemaField :=
  record fun m =>
    ((((((Reading.done SchemaField.mk).and (m.required "name" text)).and
      (m.required "namedType" text)).and (m.defaulted "isList" false boolean)).and
      (m.defaulted "isNonNull" false boolean)).and (Directive.listOfMember m)).and
      (m.defaulted "federationDirectives" [] (list FederationDirective.ofValue))

/-- Reads a type. -/
def SchemaType.ofValue : Value → Reading SchemaType :=
  record fun m =>
    (((((((Reading.done SchemaType.mk).and (m.required "name" text)).and
      (m.defaulted "fields" .empty (dictionary SchemaField.ofValue))).and
      (m.defaulted "isInterface" false boolean)).and
      (m.defaulted "isExtension" false boolean)).and
      (m.defaulted "interfaces" [] (list text))).and (m.defaulted "keyFields" [] (list text))).and
      (Directive.listOfMember m)

/-- Reads the word for a kind of dependency. -/
def DependencyKind.ofValue : Value → Reading DependencyKind
  | .text word =>
    match DependencyKind.ofWord? word with
    | some kind => .done kind
    | none => refuse .enum
  | _ => refuse .enum

/-- Reads a dependency. -/
def Dependency.ofValue : Value → Reading Dependency :=
  record fun m =>
    (((((((Reading.done Dependency.mk).and (m.required "dependingType" text)).and
      (m.required "dependingField" text)).and (m.required "dependingSubgraph" text)).and
      (m.required "dependedType" text)).and (m.required "dependedField" text)).and
      (m.required "directive" DependencyKind.ofValue)).and (m.required "fieldPath" text)

/-- Reads dependencies one after the other up to the first that is refused. -/
def Dependency.ofValues : List Value → Reading (List Dependency)
  | [] => .done []
  | v :: rest => (Dependency.ofValue v).andThen fun d => (ofValues rest).map (d :: ·)

/-- Reads what is known about an analysis. -/
def Metadata.ofValue : Value → Reading Metadata :=
  record fun m =>
    (((((Reading.done Metadata.mk).and (m.required "analyzedAt" instant)).and
      (m.required "schemaIdentifier" text)).and (m.required "subgraph" text)).and
      (m.defaulted "totalTypes" 0 integer)).and (m.defaulted "totalDependencies" 0 integer)

namespace Analysis

/-- An analysis of its parts. -/
def ofParts (types : OrderedMap SchemaType) (implementations : OrderedMap (List String))
    (dependencies : List Dependency) (metadata : Metadata) : Analysis :=
  ⟨⟨types, implementations⟩, dependencies, metadata⟩

/-- Reads an analysis. -/
def ofValue : Value → Reading Analysis :=
  record fun m =>
    ((((Reading.done ofParts).and
      (m.defaulted "types" .empty (dictionary SchemaType.ofValue))).and
      (m.defaulted "implementations" .empty (dictionary (list text)))).and
      (m.defaulted "dependencies" [] (list Dependency.ofValue))).and
      (m.required "metadata" Metadata.ofValue)

/-- Reads an analysis from its stored text. -/
def ofStored (stored : String) : Reading Analysis :=
  match Json.readStored stored with
  | .ok v => ofValue v
  | .error _ => refuse .jsonInvalid

end Analysis

end FederationGraph
