import FederationGraph.Yaml.Node
import FederationGraph.Yaml.Number
import FederationGraph.Yaml.Timestamp

/-!
# Kinds of nodes

The tag of a node says what kind of value it stands for. Without a tag a sequence
and a mapping are what they are, a quoted scalar is a text, and a plain scalar is
what it looks like. The tag of a lone exclamation mark asks for the same, also
where the scalar is quoted. The forms are those of YAML 1.1.
-/
namespace FederationGraph.Yaml

/-- What a node stands for. -/
inductive Kind where
  | null
  | boolean
  | integer
  | float
  | bytes
  | timestamp
  | text
  | sequence
  | mapping
  | set
  | orderedMapping
  | pairs
  /-- A key whose value is merged into the mapping. -/
  | merge
  /-- A key whose value is the text of the mapping. -/
  | default
  /-- A kind that stands for nothing. -/
  | unknown
  deriving DecidableEq, Repr, Inhabited

/-- Whether a kind holds other nodes. -/
def Kind.isCollection : Kind → Bool
  | .sequence => true
  | .mapping => true
  | .set => true
  | .orderedMapping => true
  | .pairs => true
  | _ => false

/-! ## Forms of plain scalars -/

/-- The words that stand for null. -/
def nullWords : List String := ["", "~", "null", "Null", "NULL"]

/-- The words that stand for true. -/
def trueWords : List String :=
  ["yes", "Yes", "YES", "true", "True", "TRUE", "on", "On", "ON"]

/-- The words that stand for false. -/
def falseWords : List String :=
  ["no", "No", "NO", "false", "False", "FALSE", "off", "Off", "OFF"]

/-- The signs that are kept for later use. -/
def reservedSigns : List String := ["!", "&", "*"]

/-- The kind of a text by its form, which a line feed may follow. -/
def Kind.ofForm (text : List Char) : Kind :=
  let form := withoutLastBreak text
  let word := String.ofList form
  if text == ['\n'] then .text
  else if trueWords.contains word || falseWords.contains word then .boolean
  else if isFloat form then .float
  else if isInteger form then .integer
  else if word == "<<" then .merge
  else if nullWords.contains word then .null
  else if isTimestamp form then .timestamp
  else if word == "=" then .default
  else if reservedSigns.contains word then .unknown
  else .text

/-! ## Tags -/

/-- The tag that leaves the kind open. -/
def openTag : String := "!"

/-- The names of the kinds behind the start of the standard tags. -/
def kindNames : List (String × Kind) :=
  [("null", .null), ("bool", .boolean), ("int", .integer), ("float", .float),
    ("binary", .bytes), ("timestamp", .timestamp), ("str", .text), ("seq", .sequence),
    ("map", .mapping), ("set", .set), ("omap", .orderedMapping), ("pairs", .pairs),
    ("merge", .merge), ("value", .default)]

/-- The kind that a tag asks for. -/
def Kind.ofTag (tag : String) : Kind :=
  ((kindNames.find? fun entry => standardTag ++ entry.1 == tag).map Prod.snd).getD .unknown

/-- The kind of a node that has the given one if its tag leaves it open. -/
def Kind.resolve (properties : Properties) (whenOpen : Kind) : Kind :=
  match properties.tag with
  | none => whenOpen
  | some tag => if tag == openTag then whenOpen else ofTag tag

/-- The kind of a scalar. -/
def Kind.ofScalar (properties : Properties) (text : List Char) (plain : Bool) : Kind :=
  if plain || properties.tag.isSome then resolve properties (ofForm text) else .text

end FederationGraph.Yaml
