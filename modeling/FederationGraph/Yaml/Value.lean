import FederationGraph.Decimal.Layout
import FederationGraph.Text.Quoted
import FederationGraph.Time.Instant

/-!
# Values of YAML documents

The value of a document: scalars, lists, sets and mappings. Keys are scalars, and
of keys that are equal the first gives the place and the last the value.
-/
namespace FederationGraph

/-- A value of a document. -/
inductive Yaml where
  | null
  | boolean (b : Bool)
  | integer (n : Int)
  | float (x : Binary64)
  | text (s : String)
  | bytes (octets : List UInt8)
  | day (year month day : Nat)
  | instant (t : Instant)
  | list (items : List Yaml)
  | set (members : List Yaml)
  | mapping (entries : List (Yaml × Yaml))
  deriving Inhabited

namespace Yaml

/-- The word for the type of a value. -/
def typeWord : Yaml → String
  | .null => "NoneType"
  | .boolean _ => "bool"
  | .integer _ => "int"
  | .float _ => "float"
  | .text _ => "str"
  | .bytes _ => "bytes"
  | .day _ _ _ => "date"
  | .instant _ => "datetime"
  | .list _ => "list"
  | .set _ => "set"
  | .mapping _ => "dict"

/-- The integer that a scalar equals, if it does. -/
def number? : Yaml → Option Int
  | .boolean b => some (if b then 1 else 0)
  | .integer n => some n
  | .float (.finite x) => x.toInt?
  | _ => none

/-- Whether a value counts as no value. -/
def isVoid : Yaml → Bool
  | .null => true
  | .text s => s == ""
  | .bytes octets => octets.isEmpty
  | .list items => items.isEmpty
  | .set members => members.isEmpty
  | .mapping entries => entries.isEmpty
  | other => other.number? == some 0

/-- Whether two scalars are the same key; numbers are compared by value. -/
def sameKey (a b : Yaml) : Bool :=
  match a, b with
  | .null, .null => true
  | .text s, .text t => s == t
  | .bytes s, .bytes t => s == t
  | .day y m d, .day y' m' d' => y == y' && m == m' && d == d'
  | .instant t, .instant t' =>
    t.offset.isSome == t'.offset.isSome && t.toSeconds == t'.toSeconds &&
      t.microsecond == t'.microsecond
  | .float .nan, .float .nan => true
  | .float (.infinite s), .float (.infinite t) => s == t
  | .float (.finite x), .float (.finite y) =>
    x == y || (x.toInt?.isSome && x.toInt? == y.toInt?)
  | a, b => a.number?.isSome && a.number? == b.number?

/-- The entries after writing a value under a key. -/
def write (key value : Yaml) : List (Yaml × Yaml) → List (Yaml × Yaml)
  | [] => [(key, value)]
  | (k, v) :: rest => if sameKey k key then (k, value) :: rest else (k, v) :: write key value rest

/-- The entries that result from writing some one after the other. -/
def written (entries : List (Yaml × Yaml)) : List (Yaml × Yaml) :=
  entries.foldl (fun known entry => write entry.1 entry.2 known) []

/-! ## Keys as text -/

/-- Numbers between parentheses behind a name. -/
def callText (name : String) (arguments : List String) : String :=
  name ++ "(" ++ ", ".intercalate arguments ++ ")"

/-- The seconds of a day. -/
def daySeconds : Nat := 86400

/-- A distance in seconds of less than a day: whole days below it and the seconds from there. -/
def distanceText (seconds : Int) : String :=
  let within := (seconds.fmod daySeconds).toNat
  callText "datetime.timedelta"
    ((if seconds < 0 then ["days=-1"] else []) ++ ["seconds=" ++ Decimal.text within])

/-- The distance from universal time, if it is known. -/
def zoneText : Option Int → List String
  | none => []
  | some 0 => ["tzinfo=datetime.timezone.utc"]
  | some seconds => ["tzinfo=" ++ callText "datetime.timezone" [distanceText seconds]]

/-- The seconds and microseconds of an instant, left out at the end where they are zero. -/
def secondTexts (second microsecond : Nat) : List String :=
  if microsecond ≠ 0 then [Decimal.text second, Decimal.text microsecond]
  else if second ≠ 0 then [Decimal.text second]
  else []

/-- The parts of an instant. -/
def instantText (t : Instant) : String :=
  callText "datetime.datetime"
    ([t.year, t.month, t.day, t.hour, t.minute].map Decimal.text ++
      secondTexts t.second t.microsecond ++ zoneText t.offset)

/-- An integer in decimal; those with too many digits are not written out. -/
def integerText (n : Int) : String :=
  let digits := Decimal.digits n.natAbs
  if Decimal.mostDigits < digits.length then "<unprintable int object>"
  else String.ofList (Decimal.signedDigits n)

/-- A scalar key as it is named among other texts. -/
def keyText : Yaml → String
  | .null => "None"
  | .boolean b => if b then "1" else "0"
  | .integer n => integerText n
  | .float x => Binary64.display.text x
  | .text s => s
  | .bytes octets => String.ofList (Text.quoteBytes octets)
  | .day y m d => callText "datetime.date" ([y, m, d].map Decimal.text)
  | .instant t => instantText t
  | .list _ => "[]"
  | .set _ => "set()"
  | .mapping _ => "\x7b\x7d"

end Yaml

end FederationGraph
