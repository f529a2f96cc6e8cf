import FederationGraph.Decimal.Layout
import FederationGraph.Text.Quoted
import FederationGraph.Value

/-!
# Writing values as JSON

Every item and entry stands on a line of its own, two spaces further in than
what holds it; an empty list or object is written without a line break. A style
says which characters are escaped and how numbers look.
-/
namespace FederationGraph.Json

open Text

/-- The choices of a written form. -/
structure Style where
  /-- The characters between quotes that need no escape by number. -/
  plain : Char → Bool
  /-- The layout of binary64 numbers. -/
  numbers : Binary64.Layout

/-- The style of stored results: Unicode text, null for what is not finite. -/
def stored : Style := ⟨isPlainText, ⟨-5, 16, 1, "null", "null", "null"⟩⟩

/-- The style of listings: ASCII only, names for what is not finite. -/
def listed : Style := ⟨isPlainAscii, ⟨-4, 16, 2, "Infinity", "-Infinity", "NaN"⟩⟩

/-- A line break with the indentation of the next line. -/
def lineBreak (indent : Nat) : List Char := '\n' :: List.replicate indent ' '

/-- The key of an entry and what separates it from the value. -/
def writeKey (style : Style) (key : String) : List Char :=
  quoteDouble style.plain key.toList ++ [':', ' ']

mutual
/-- A value whose first line is already indented. -/
def write (style : Style) (indent : Nat) : Value → List Char
  | .null => ['n', 'u', 'l', 'l']
  | .boolean true => ['t', 'r', 'u', 'e']
  | .boolean false => ['f', 'a', 'l', 's', 'e']
  | .integer n => Decimal.signedDigits n
  | .float x => (style.numbers.text x).toList
  | .text s => quoteDouble style.plain s.toList
  | .list [] => ['[', ']']
  | .list (item :: rest) =>
    '[' :: (lineBreak (indent + 2) ++ write style (indent + 2) item ++
      writeItems style (indent + 2) rest ++ lineBreak indent ++ [']'])
  | .object [] => ['{', '}']
  | .object ((key, value) :: rest) =>
    '{' :: (lineBreak (indent + 2) ++ writeKey style key ++ write style (indent + 2) value ++
      writeEntries style (indent + 2) rest ++ lineBreak indent ++ ['}'])

/-- The items behind the first one. -/
def writeItems (style : Style) (indent : Nat) : List Value → List Char
  | [] => []
  | item :: rest =>
    ',' :: (lineBreak indent ++ write style indent item ++ writeItems style indent rest)

/-- The entries behind the first one. -/
def writeEntries (style : Style) (indent : Nat) : List (String × Value) → List Char
  | [] => []
  | (key, value) :: rest =>
    ',' :: (lineBreak indent ++ writeKey style key ++ write style indent value ++
      writeEntries style indent rest)
end

/-- The text of a value in a style. -/
def text (style : Style) (value : Value) : String := String.ofList (write style 0 value)

end FederationGraph.Json
