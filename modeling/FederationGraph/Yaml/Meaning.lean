import FederationGraph.Text.Base64
import FederationGraph.Yaml.Kind
import FederationGraph.Yaml.Value

/-!
# Meaning of nodes

What the nodes of a document stand for. An alias means what the node with its
anchor means. Entries that a merge key brings in stand in front of a mapping's
own. A mapping can stand for a scalar by the text of its default entry.

Scalars are looked at together with the collection around them, and collections
one level after the other. So of several faults the least deep one counts, and
of equally deep ones the first.
-/
namespace FederationGraph.Yaml

/-! ## Values with faults -/

/-- A fault, and how many collections deep it lies. -/
structure Complaint where
  depth : Nat
  fault : Fault
  deriving DecidableEq, Repr, Inhabited

/-- A value, or what keeps it from being one. -/
abbrev Built (α : Type) := Except Complaint α

namespace Built

variable {α β : Type}

/-- What has a fault right here. -/
def refuse (fault : Fault) : Built α := .error ⟨0, fault⟩

/-- What was read here. -/
def here : Except Fault α → Built α
  | .ok a => .ok a
  | .error fault => refuse fault

/-- What lies in a collection, seen from outside of it. -/
def inside : Built α → Built α
  | .ok a => .ok a
  | .error complaint => .error ⟨complaint.depth + 1, complaint.fault⟩

/-- Two values. Of two faults the less deep one counts, and the first if they are equally deep. -/
def both : Built α → Built β → Built (α × β)
  | .ok a, .ok b => .ok (a, b)
  | .ok _, .error second => .error second
  | .error first, .ok _ => .error first
  | .error first, .error second => .error (if second.depth < first.depth then second else first)

/-- Several values. -/
def all : List (Built α) → Built (List α)
  | [] => .ok []
  | first :: rest => (both first (all rest)).map fun (a, values) => a :: values

end Built

/-! ## Scalars -/

/-- The boolean that a word stands for. -/
def readBoolean (text : List Char) : Except Fault Bool :=
  let word := (String.ofList text).toLower
  if trueWords.contains word then .ok true
  else if falseWords.contains word then .ok false
  else .error .noBoolean

/-- The bytes that an ASCII text stands for. -/
def readBytes (text : List Char) : Except Fault (List UInt8) :=
  match if text.all (·.toNat < 0x80) then Text.base64? text else none with
  | some octets => .ok octets
  | none => .error .malformed

/-- The value of a timestamp. -/
def ofTimestamp (t : Timestamp) : Yaml :=
  match t.time with
  | none => .day t.year t.month t.day
  | some (hour, minute, second, micros, zone) =>
    .instant ⟨t.year, t.month, t.day, hour, minute, second, micros, zone⟩

/-- The value of a text of a given kind. -/
def scalarValue (kind : Kind) (text : List Char) : Except Fault Yaml :=
  match kind with
  | .null => .ok .null
  | .boolean => (readBoolean text).map .boolean
  | .integer => (readInteger text).map .integer
  | .float => (readFloat text).map .float
  | .bytes => (readBytes text).map .bytes
  | .timestamp => (readTimestamp text).map ofTimestamp
  | .text => .ok (.text (String.ofList text))
  | _ => .error .malformed

/-- The value of a mapping of a kind that is no collection. A timestamp is never written so. -/
def mappingScalar (kind : Kind) (text : Except Fault (List Char)) : Except Fault Yaml :=
  match kind with
  | .timestamp => text.bind fun _ => .error .timestampMapping
  | .merge => .error .malformed
  | .default => .error .malformed
  | .unknown => .error .malformed
  | kind => text.bind (scalarValue kind)

/-! ## Nodes -/

/-- What a node means: its kind and its parts, and of a collection also the value. A node within
itself is one that encloses it. -/
inductive Meaning where
  | scalar (kind : Kind) (text : List Char)
  | sequence (kind : Kind) (items : List Meaning) (value : Built Yaml)
  | mapping (kind : Kind) (entries : List (Meaning × Meaning)) (text : Except Fault (List Char))
      (value : Built Yaml)
  | enclosing
  deriving Inhabited

namespace Meaning

/-- The kind of a node. -/
def kind : Meaning → Kind
  | .scalar kind _ => kind
  | .sequence kind _ _ => kind
  | .mapping kind _ _ _ => kind
  | .enclosing => .mapping

/-- The text that a node stands for as a scalar. -/
def text : Meaning → Except Fault (List Char)
  | .scalar _ text => .ok text
  | .sequence _ _ _ => .error .malformed
  | .mapping _ _ text _ => text
  | .enclosing => .error .tooDeep

/-- The value of a node. -/
def value : Meaning → Built Yaml
  | .scalar kind text =>
    if kind.isCollection then Built.inside (Built.refuse .malformed)
    else Built.here (scalarValue kind text)
  | .sequence _ _ value => value
  | .mapping _ _ _ value => value
  | .enclosing => .ok (.list [])

/-- The value of a node as a key: a scalar, where the mark of a default entry is a text. -/
def keyValue (key : Meaning) : Built Yaml :=
  if key.kind.isCollection then Built.refuse .malformed
  else if key.kind = .default then
    Built.here (key.text.map fun text => .text (String.ofList text))
  else key.value

/-! ## Merging -/

mutual
/-- The entries that a mapping merges into its own, and its own ones. -/
def split : List (Meaning × Meaning) →
    Except Fault (List (Meaning × Meaning) × List (Meaning × Meaning))
  | [] => .ok ([], [])
  | (key, value) :: rest => do
    if key.kind = .merge then
      let entries ← brought value
      let (merged, own) ← split rest
      return (entries ++ merged, own)
    else
      let (merged, own) ← split rest
      return (merged, (key, value) :: own)

/-- The entries that the value of a merge key brings in: those of a mapping, or those of several
with the last one first. -/
def brought : Meaning → Except Fault (List (Meaning × Meaning))
  | .mapping _ entries _ _ => (split entries).map fun (merged, own) => merged ++ own
  | .sequence _ items _ => (broughtByAll items).map fun groups => groups.reverse.flatten
  | .scalar _ _ => .error .malformed
  | .enclosing => .ok []

/-- The entries of several mappings. -/
def broughtByAll : List Meaning → Except Fault (List (List (Meaning × Meaning)))
  | [] => .ok []
  | item :: rest => do
    if item matches .sequence .. then throw .malformed
    let entries ← brought item
    let groups ← broughtByAll rest
    return entries :: groups
end

/-! ## Collections -/

/-- A key and its value that stand alone in a mapping. -/
def pairValue : Meaning → Built Yaml
  | .mapping _ [(key, value)] _ _ =>
    (Built.both key.value value.value).map fun (key, value) => .list [key, value]
  | _ => Built.refuse .malformed

/-- The value of a sequence of a given kind. -/
def sequenceValue (kind : Kind) (items : List Meaning) : Built Yaml :=
  match kind with
  | .sequence => Built.inside ((Built.all (items.map value)).map Yaml.list)
  | .orderedMapping => Built.inside ((Built.all (items.map pairValue)).map Yaml.list)
  | .pairs => Built.inside ((Built.all (items.map pairValue)).map Yaml.list)
  | .mapping => Built.inside (Built.refuse .malformed)
  | .set => Built.inside (Built.refuse .malformed)
  | _ => Built.refuse .malformed

/-- The keys and values of a mapping, merged ones first. -/
def entryValues (entries : List (Meaning × Meaning)) : Built (List (Yaml × Yaml)) :=
  match split entries with
  | .error fault => Built.refuse fault
  | .ok (merged, own) =>
    (Built.all ((merged ++ own).map fun (key, value) =>
      Built.both key.keyValue value.value)).map written

/-- The value of a mapping of a given kind, whose default entry has the given text. -/
def mappingValue (kind : Kind) (entries : List (Meaning × Meaning))
    (text : Except Fault (List Char)) : Built Yaml :=
  match kind with
  | .mapping => Built.inside ((entryValues entries).map Yaml.mapping)
  | .set => Built.inside ((entryValues entries).map fun entries => Yaml.set (entries.map Prod.fst))
  | .sequence => Built.inside (Built.refuse .malformed)
  | .orderedMapping => Built.inside (Built.refuse .malformed)
  | .pairs => Built.inside (Built.refuse .malformed)
  | kind => Built.here (mappingScalar kind text)

/-- The text of the first default entry of a mapping. -/
def defaultText (entries : List (Meaning × Meaning)) : Except Fault (List Char) :=
  match entries.find? fun entry => entry.1.kind = .default with
  | some (_, value) => value.text
  | none => .error .malformed

/-- A sequence of a given kind. -/
def ofItems (kind : Kind) (items : List Meaning) : Meaning :=
  .sequence kind items (sequenceValue kind items)

/-- A mapping of a given kind. -/
def ofEntries (kind : Kind) (entries : List (Meaning × Meaning)) : Meaning :=
  let text := defaultText entries
  .mapping kind entries text (mappingValue kind entries text)

end Meaning

/-! ## Documents -/

/-- What the anchors seen so far mean. -/
abbrev Known := List (String × Meaning)

/-- A meaning together with what is known behind its node. -/
def Known.note (known : Known) (properties : Properties) (meaning : Meaning) : Meaning × Known :=
  match properties.anchor with
  | some name => (meaning, (name, meaning) :: known)
  | none => (meaning, known)

mutual
/-- What a node means, and what is known behind it. -/
def Node.meaning (known : Known) : Node → Meaning × Known
  | .alias name => ((known.lookup name).getD .enclosing, known)
  | .scalar properties chars plain =>
    known.note properties (.scalar (Kind.ofScalar properties chars plain) chars)
  | .sequence properties items =>
    let (items, known) := Node.itemMeanings known items
    known.note properties (.ofItems (Kind.resolve properties .sequence) items)
  | .mapping properties entries =>
    let (entries, known) := Node.entryMeanings known entries
    known.note properties (.ofEntries (Kind.resolve properties .mapping) entries)

/-- What the items of a sequence mean. -/
def Node.itemMeanings (known : Known) : List Node → List Meaning × Known
  | [] => ([], known)
  | item :: rest =>
    let (item, known) := Node.meaning known item
    let (rest, known) := Node.itemMeanings known rest
    (item :: rest, known)

/-- What the keys and values of a mapping mean. -/
def Node.entryMeanings (known : Known) :
    List (Node × Node) → List (Meaning × Meaning) × Known
  | [] => ([], known)
  | (key, value) :: rest =>
    let (key, known) := Node.meaning known key
    let (value, known) := Node.meaning known value
    let (rest, known) := Node.entryMeanings known rest
    ((key, value) :: rest, known)
end

/-- Reads the value of the document in a text; a text without a document has the value null. -/
def read (text : String) : Except Fault Yaml := do
  match ← root? text with
  | none => return .null
  | some root => (root.meaning []).1.value.mapError Complaint.fault

end FederationGraph.Yaml
