import FederationGraph.CommandLine.Words
import FederationGraph.Dependency.Query

/-!
# Requests

A command line asks for one command. Behind its name stand its options and
operands in any order. Asking for help comes before everything else that they
can say.
-/
namespace FederationGraph.CommandLine

/-- What is asked of a command. -/
inductive Request where
  | help
  | analyze (schema : String) (force : Bool) (subgraph : Option String)
  | query (schema : Option String) (question : Query) (countOnly asJson : Bool)
  | types (schema : Option String) (asJson : Bool)
  | describe (schema : Option String) (typeName : String) (asJson : Bool)
  | list
  | clear
  deriving DecidableEq, Repr, Inhabited

/-- A flag without a letter. -/
def flag (name : String) : OptionRule := ⟨name, none, false⟩

/-- A flag with a letter. -/
def letterFlag (name : String) (letter : Char) : OptionRule := ⟨name, some letter, false⟩

/-- An option with a value and no letter. -/
def valued (name : String) : OptionRule := ⟨name, none, true⟩

/-- An option with a value and a letter. -/
def letterValued (name : String) (letter : Char) : OptionRule := ⟨name, some letter, true⟩

/-- A command: its own options, and the request they make, unless the operands do not fit. -/
structure Command where
  rules : List OptionRule
  request? : Words → Option Request

/-- The only operand. -/
def Words.single? (w : Words) : Option String :=
  match w.operands with
  | [operand] => some operand
  | _ => none

/-- A request for which there are no operands. -/
def Words.without? (w : Words) (request : Request) : Option Request :=
  if w.operands.isEmpty then some request else none

/-- The option for the schema to ask about. -/
def schemaRule : OptionRule := letterValued "--schema" 's'

/-- The flag for answers as JSON. -/
def jsonRule : OptionRule := letterFlag "--json" 'j'

namespace Command

/-- Analyzes a schema. -/
def analyze : Command where
  rules := [letterFlag "--force" 'f', valued "--subgraph"]
  request? w := w.single?.map fun schema =>
    .analyze schema (w.has "--force") (w.value? "--subgraph")

/-- Asks for the dependencies on a type. -/
def query : Command where
  rules := [schemaRule, letterValued "--field" 'f', letterFlag "--direct" 'd',
    flag "--include-same-type", letterFlag "--count" 'c', jsonRule]
  request? w := w.single?.map fun typeName =>
    .query (w.value? "--schema")
      ⟨typeName, w.value? "--field", w.has "--direct", w.has "--include-same-type"⟩
      (w.has "--count") (w.has "--json")

/-- Lists the types of a schema. -/
def types : Command where
  rules := [schemaRule, jsonRule]
  request? w := w.without? (.types (w.value? "--schema") (w.has "--json"))

/-- Describes a type. -/
def describe : Command where
  rules := [schemaRule, jsonRule]
  request? w := w.single?.map fun typeName =>
    .describe (w.value? "--schema") typeName (w.has "--json")

/-- Lists the analyzed schemas. -/
def list : Command where
  rules := []
  request? w := w.without? .list

/-- Removes all stored analyses. -/
def clear : Command where
  rules := []
  request? w := w.without? .clear

/-- The commands by name. -/
def all : List (String × Command) :=
  [("analyze", analyze), ("query", query), ("types", types), ("show", describe), ("list", list),
    ("clear", clear)]

/-- The shape of a command line. -/
def helpText : String :=
  "Usage: [options] (" ++ " | ".intercalate (all.map Prod.fst) ++ ") [options] [operand]"

/-- The flag that asks for help. -/
def helpRule : OptionRule := flag "--help"

/-- Reads the words behind a command. -/
def read? (c : Command) (words : List String) : Option Request :=
  (Words.read? (helpRule :: c.rules) false words).bind fun w =>
    if w.has helpRule.name then some .help else c.request? w

end Command

end FederationGraph.CommandLine
