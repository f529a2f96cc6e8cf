import FederationGraph.Decimal.Digits
import FederationGraph.OrderedMap
import FederationGraph.Value

/-!
# Readings

A value of unknown shape is read as a record of known shape. A reading either
gives the record or refuses the value with everything that is wrong with it: the
problems of all parts in order, each with its location. The parts of a record
are looked up under a name in camel case and, if that is missing, under the same
name in snake case. Of members that repeat a name the last one is read; a
dictionary reads all its entries, also those that a later one replaces.
-/
namespace FederationGraph

/-- What can be wrong with a part of a value. -/
inductive ProblemKind where
  | missing
  | modelType
  | dictType
  | listType
  | stringType
  | stringUnicode
  | boolType
  | boolParsing
  | intType
  | intParsing
  | intParsingSize
  | intFromFloat
  | finiteNumber
  | datetimeType
  | datetimeParsing
  | datetimeFromDateParsing
  | enum
  | tagNotFound
  | tagInvalid
  | jsonInvalid
  | pathType
  | extraForbidden
  | invalidKey
  deriving DecidableEq, Repr, Inhabited

/-- The word for a kind of problem. -/
def ProblemKind.word : ProblemKind → String
  | .missing => "missing"
  | .modelType => "model_type"
  | .dictType => "dict_type"
  | .listType => "list_type"
  | .stringType => "string_type"
  | .stringUnicode => "string_unicode"
  | .boolType => "bool_type"
  | .boolParsing => "bool_parsing"
  | .intType => "int_type"
  | .intParsing => "int_parsing"
  | .intParsingSize => "int_parsing_size"
  | .intFromFloat => "int_from_float"
  | .finiteNumber => "finite_number"
  | .datetimeType => "datetime_type"
  | .datetimeParsing => "datetime_parsing"
  | .datetimeFromDateParsing => "datetime_from_date_parsing"
  | .enum => "enum"
  | .tagNotFound => "union_tag_not_found"
  | .tagInvalid => "union_tag_invalid"
  | .jsonInvalid => "json_invalid"
  | .pathType => "path_type"
  | .extraForbidden => "extra_forbidden"
  | .invalidKey => "invalid_key"

/-- A problem and the way to the part that has it, from the outermost value on. -/
structure Problem where
  location : List String
  kind : ProblemKind
  deriving DecidableEq, Repr, Inhabited

/-- What was read, or everything that is wrong with the value. -/
inductive Reading (α : Type) where
  | done (result : α)
  | refused (problems : List Problem)
  deriving Inhabited

/-- The members of an object; of those with one name the first gives the position and the last the
value. -/
def Members.merged (entries : Members) : Members := (OrderedMap.ofList entries).entries

namespace Reading

variable {α β : Type}

/-- The reading that finds one problem, here. -/
def refuse (kind : ProblemKind) : Reading α := .refused [⟨[], kind⟩]

/-- The reading with its result replaced. -/
def map (f : α → β) : Reading α → Reading β
  | .done a => .done (f a)
  | .refused problems => .refused problems

/-- The reading of a further part; problems of both parts are kept. -/
def and : Reading (α → β) → Reading α → Reading β
  | .done f, .done a => .done (f a)
  | .done _, .refused problems => .refused problems
  | .refused problems, .done _ => .refused problems
  | .refused problems, .refused more => .refused (problems ++ more)

/-- A reading that goes on with the result of another. -/
def andThen (reading : Reading α) (next : α → Reading β) : Reading β :=
  match reading with
  | .done a => next a
  | .refused problems => .refused problems

/-- The reading of what lies under a name. -/
def under (name : String) : Reading α → Reading α
  | .done a => .done a
  | .refused problems =>
    .refused (problems.map fun problem => ⟨name :: problem.location, problem.kind⟩)

/-- The reading of several parts in order. -/
def all : List (Reading α) → Reading (List α)
  | [] => .done []
  | reading :: rest => (reading.map List.cons).and (all rest)

/-- A list, each item under its position. -/
def list (read : Value → Reading α) : Value → Reading (List α)
  | .list items => all (items.mapIdx fun i item => (read item).under (Decimal.text i))
  | _ => refuse .listType

/-- An object whose entries are all of one kind, each under its key. -/
def dictionary (read : Value → Reading α) : Value → Reading (OrderedMap α)
  | .object members =>
    (all (members.map fun (key, value) =>
      ((read value).map fun a => (key, a)).under key)).map OrderedMap.ofList
  | _ => refuse .dictType

/-- Null, or what the given reading makes of anything else. -/
def optional (read : Value → Reading α) : Value → Reading (Option α)
  | .null => .done none
  | value => (read value).map some

/-- An object that is read by its members. -/
def record (read : Members → Reading α) : Value → Reading α
  | .object entries => read (Members.merged entries)
  | _ => refuse .modelType

end Reading

/-- A name in camel case, written in snake case. -/
def snakeCase (name : String) : String :=
  String.ofList (name.toList.flatMap fun c => if c.isUpper then ['_', c.toLower] else [c])

namespace Members

variable {α : Type}

/-- The value under a name in either case. -/
def value? (members : Members) (name : String) : Option Value :=
  (members.lookup name).orElse fun _ => members.lookup (snakeCase name)

/-- A part that has to be present. -/
def required (members : Members) (name : String) (read : Value → Reading α) : Reading α :=
  match value? members name with
  | some value => (read value).under name
  | none => (Reading.refuse .missing).under name

/-- A part that may be missing. -/
def defaulted (members : Members) (name : String) (default : α) (read : Value → Reading α) :
    Reading α :=
  match value? members name with
  | some value => (read value).under name
  | none => .done default

end Members

end FederationGraph
