import FederationGraph.Decimal.Layout
import FederationGraph.Directive.Basic
import FederationGraph.Text.Quoted

/-!
# Directives as text

A directive is rendered with its arguments in order. Texts and booleans look as
they do in a schema. Other values are rendered for readers, texts inside them
between single quotes.
-/
namespace FederationGraph

namespace Value

mutual
/-- A value as it looks inside another one. -/
def display : Value → List Char
  | .null => ['N', 'o', 'n', 'e']
  | .boolean true => ['T', 'r', 'u', 'e']
  | .boolean false => ['F', 'a', 'l', 's', 'e']
  | .integer n => Decimal.signedDigits n
  | .float x => (Binary64.display.text x).toList
  | .text s => Text.quoteSingle s.toList
  | .list [] => ['[', ']']
  | .list (item :: rest) => '[' :: (display item ++ displayItems rest ++ [']'])
  | .object [] => ['{', '}']
  | .object ((key, value) :: rest) =>
    '{' :: (displayKey key ++ display value ++ displayEntries rest ++ ['}'])

/-- The key of an entry and what separates it from the value. -/
def displayKey (key : String) : List Char := Text.quoteSingle key.toList ++ [':', ' ']

/-- The items behind the first one. -/
def displayItems : List Value → List Char
  | [] => []
  | item :: rest => ',' :: ' ' :: (display item ++ displayItems rest)

/-- The entries behind the first one. -/
def displayEntries : List (String × Value) → List Char
  | [] => []
  | (key, value) :: rest =>
    ',' :: ' ' :: (displayKey key ++ display value ++ displayEntries rest)
end

/-- A value as the argument of a rendered directive. -/
def argumentText : Value → List Char
  | .text s => Text.quoteDouble Text.isPlainAscii s.toList
  | .boolean true => ['t', 'r', 'u', 'e']
  | .boolean false => ['f', 'a', 'l', 's', 'e']
  | other => other.display

end Value

namespace Directive

/-- An argument's name and value. -/
def renderArgument (argument : String × Value) : List Char :=
  argument.1.toList ++ [':', ' '] ++ argument.2.argumentText

/-- The text of a directive: its name behind a sign, its arguments between parentheses. -/
def render (d : Directive) : String :=
  if d.arguments.entries.isEmpty then "@" ++ d.name
  else
    "@" ++ d.name ++ "(" ++
      String.ofList ([',', ' '].intercalate (d.arguments.entries.map renderArgument)) ++ ")"

/-- Several directives set apart by spaces. -/
def renderAll (directives : List Directive) : String := " ".intercalate (directives.map render)

end Directive

end FederationGraph
