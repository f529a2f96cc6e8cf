import FederationGraph.Decimal.Binary64
import FederationGraph.OrderedMap

/-!
# Values

The values that directive arguments and stored files are made of: null,
booleans, integers of any size, binary64 numbers, texts, lists and objects.
An object keeps its entries in order; entries that repeat a key are merged, the
last one giving the value at the position of the first.
-/
namespace FederationGraph

/-- An untyped value. -/
inductive Value where
  | null
  | boolean (b : Bool)
  | integer (n : Int)
  | float (x : Binary64)
  | text (s : String)
  | list (items : List Value)
  | object (entries : List (String × Value))
  deriving Inhabited

/-- The entries of an object. -/
abbrev Members := List (String × Value)

namespace Value

/-- The object with the given entries; of entries with one key the first gives the position and
the last the value. -/
def ofEntries (entries : List (String × Value)) : Value :=
  .object (OrderedMap.ofList entries).entries

/-- The text of a text value. -/
def text? : Value → Option String
  | .text s => some s
  | _ => none

/-- Whether the value is the boolean `true`. -/
def isTrue : Value → Bool
  | .boolean b => b
  | _ => false

/-- The entries of an object. -/
def entries? : Value → Option (List (String × Value))
  | .object entries => some entries
  | _ => none

mutual
/-- The value with the entries that repeat a key merged in every object. -/
def merged : Value → Value
  | .list items => .list (mergedItems items)
  | .object entries => .ofEntries (mergedEntries entries)
  | other => other

/-- The items of a list, merged. -/
def mergedItems : List Value → List Value
  | [] => []
  | item :: rest => item.merged :: mergedItems rest

/-- The entries of an object with their values merged. -/
def mergedEntries : List (String × Value) → List (String × Value)
  | [] => []
  | (key, value) :: rest => (key, value.merged) :: mergedEntries rest
end

mutual
/-- The value with null in place of every number that is not finite. -/
def finitePart : Value → Value
  | .float x => if x.isFinite then .float x else .null
  | .list items => .list (finiteItems items)
  | .object entries => .object (finiteEntries entries)
  | other => other

/-- The finite parts of the items of a list. -/
def finiteItems : List Value → List Value
  | [] => []
  | item :: rest => item.finitePart :: finiteItems rest

/-- The finite parts of the entries of an object. -/
def finiteEntries : List (String × Value) → List (String × Value)
  | [] => []
  | (key, value) :: rest => (key, value.finitePart) :: finiteEntries rest
end

end Value

end FederationGraph
