import FederationGraph.CommandLine.Outcome
import FederationGraph.Directive.Rendering

/-!
# Inquiries

Four commands only look: they ask about dependencies, types, one type, or the
stored analyses. Their outcome is a function of the session and the store, and
the session stays as it is. The first three answer from the stored analysis of a
given schema, or from the most recent one.
-/
namespace FederationGraph.CommandLine

open Console

/-- A value as JSON. -/
def jsonItem (value : Value) : Item := .plain (Json.text Json.listed value)

/-- An outcome from the stored analysis of a schema, or from the most recent one. -/
def fromStored (s : Session) (store : Store) (schema : Option String)
    (answer : Analysis → Outcome) : Outcome :=
  match store.resolve s.files (schema.map s.identifier) with
  | .ok analysis => answer analysis
  | .error fault => .failed (.store fault)

/-! ## Dependencies -/

/-- The name of what a query asks about. -/
def targetOf (q : Query) : String :=
  match Registry.nonEmpty? q.field with
  | some field => q.typeName ++ "." ++ field
  | none => q.typeName

/-- The header of a table of dependencies. -/
def dependencyHeader : List String :=
  ["Depending Type", "Depending Field", "Subgraph", "Depended Type", "Depended Field", "Path",
    "Via"]

/-- The row of a dependency. -/
def dependencyRow (d : Dependency) : List String :=
  [d.dependingType, d.dependingField, d.dependingSubgraph, d.dependedType, d.dependedField,
    d.fieldPath, "@" ++ d.kind.word]

/-- The number of dependencies that a query finds, as a value. -/
def countValue (q : Query) (count : Nat) : Value :=
  .object [("type", .text q.typeName), ("field", .optionalText q.field), ("count", .integer count)]

/-- The items that tell what a query finds. -/
def dependencyItems (q : Query) (countOnly asJson : Bool) (found : List Dependency) : List Item :=
  match countOnly, asJson with
  | true, true => [jsonItem (countValue q found.length)]
  | true, false => [.marked (Decimal.text found.length ++ " dependencies on " ++ targetOf q)]
  | false, true => [jsonItem (Dependency.listToValue found)]
  | false, false =>
    if found.isEmpty then [.message .warning ("No dependencies found for: " ++ targetOf q)]
    else [.heading ("Fields that depend on " ++ targetOf q),
      .table dependencyHeader (found.map dependencyRow)]

/-- What an analysis says about the dependencies on a type. -/
def queryAnswer (question : Query) (countOnly asJson : Bool) (analysis : Analysis) : Outcome :=
  match analysis.query question with
  | .ok found => .success (dependencyItems question countOnly asJson found)
  | .error unknown => .stopped unknown.message

/-- Asks for the dependencies on a type. -/
def query (s : Session) (store : Store) (schema : Option String) (question : Query)
    (countOnly asJson : Bool) : Outcome :=
  fromStored s store schema (queryAnswer question countOnly asJson)

/-! ## Types -/

/-- The line of a type in a listing. -/
def typeLine (entry : String × SchemaType) : String :=
  entry.1 ++ if entry.2.isInterface then " (interface)" else ""

/-- What an analysis says about the types of its schema. -/
def typesAnswer (asJson : Bool) (analysis : Analysis) : Outcome :=
  let types := analysis.registry.types
  .success (if asJson then [jsonItem (.texts types.keys)]
    else .heading ("Types (" ++ Decimal.text types.size ++ ")") ::
      types.entries.map fun entry => .bullet (typeLine entry))

/-- Lists the types of a schema. -/
def types (s : Session) (store : Store) (schema : Option String) (asJson : Bool) : Outcome :=
  fromStored s store schema (typesAnswer asJson)

/-- Several names in one line. -/
def listed (names : List String) : String := ", ".intercalate names

/-- A labelled list of names, if there are any. -/
def labelledNames (label : String) (names : List String) : List Item :=
  if names.isEmpty then [] else [.labelled label (listed names)]

/-- The text of a directive list that shows as it is. -/
def directiveText (directives : List Directive) : String := escape (Directive.renderAll directives)

/-- A text without the blanks at its end. -/
def trimEnd (text : String) : String :=
  String.ofList (text.toList.reverse.dropWhile Text.isBlank).reverse

/-- The line of a field: its name, its type and its directives. -/
def fieldLine (f : SchemaField) : String :=
  trimEnd (f.name ++ ": " ++ f.namedType ++ " " ++ directiveText f.directives)

/-- The items about what a type is. -/
def kindItems (type : SchemaType) : List Item :=
  [.labelled "Kind" (if type.isInterface then "interface" else "object"),
    .labelled "Extension" (if type.isExtension then "True" else "False")]

/-- The item that names the implementations of an interface. -/
def implementationItems (type : SchemaType) (names : List String) : List Item :=
  if type.isInterface then
    [.labelled "Implementations" (if names.isEmpty then "-" else listed names)]
  else []

/-- The item that shows the directives of a type. -/
def directiveItems (type : SchemaType) : List Item :=
  if type.directives.isEmpty then [] else [.labelled "Directives" (directiveText type.directives)]

/-- The items that describe a type. -/
def typeItems (name : String) (type : SchemaType) (implementations : List String)
    (dependencies : Nat) : List Item :=
  .heading name :: kindItems type ++ labelledNames "Implements" type.interfaces ++
    labelledNames "Key fields" type.keyFields ++ implementationItems type implementations ++
    directiveItems type ++ .blank :: type.fields.values.map (fun f => .bullet (fieldLine f)) ++
    [.blank, .labelled "Dependencies" (Decimal.text dependencies)]

/-- What an analysis says about a type. -/
def describeAnswer (typeName : String) (asJson : Bool) (analysis : Analysis) : Outcome :=
  match analysis.type typeName with
  | .error unknown => .stopped unknown.message
  | .ok type =>
    let around := analysis.dependenciesAround typeName
    .success (if asJson then [jsonItem (Analysis.Details.toValue ⟨type.finitePart, around⟩)]
      else typeItems typeName type (analysis.registry.implementationsOf typeName) around.length)

/-- Describes a type. -/
def describe (s : Session) (store : Store) (schema : Option String) (typeName : String)
    (asJson : Bool) : Outcome :=
  fromStored s store schema (describeAnswer typeName asJson)

/-! ## Analyses -/

/-- An integer in digits. -/
def integerText (n : Int) : String := String.ofList (Decimal.signedDigits n)

/-- The items about a stored analysis. -/
def entryItems (entry : IndexEntry) : List Item :=
  [.highlighted entry.schemaIdentifier, .labelled "  Analyzed" entry.analyzedAt,
    .labelled "  Types" (integerText entry.totalTypes),
    .labelled "  Dependencies" (integerText entry.totalDependencies)]

/-- Lists the stored analyses. -/
def list (s : Session) (store : Store) : Outcome :=
  match store.list s.files with
  | .error fault => .failed (.store fault)
  | .ok [] => .success [.message .warning nothingStoredMessage]
  | .ok entries => .success (.heading "Analyzed schemas" :: entries.flatMap entryItems)

end FederationGraph.CommandLine
