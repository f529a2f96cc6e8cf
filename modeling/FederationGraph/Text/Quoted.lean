import FederationGraph.Text.Hexadecimal
import FederationGraph.Text.Printable

/-!
# Quoted text

Two ways of writing a text between quotes. Between double quotes a backslash
introduces short escapes and UTF-16 units of four hexadecimal digits. Between
single quotes the quote gives way to a double one when that saves escapes, and
what cannot be printed is written by its code point. Bytes are written as the
text of the characters with their numbers, a letter in front of it.
-/
namespace FederationGraph.Text

/-- The letter of a character's short escape between double quotes. -/
def shortEscape? (c : Char) : Option Char :=
  if c = '\x22' then some '\x22'
  else if c = '\\' then some '\\'
  else if c = '\x08' then some 'b'
  else if c = '\x0c' then some 'f'
  else if c = '\n' then some 'n'
  else if c = '\x0d' then some 'r'
  else if c = '\t' then some 't'
  else none

/-- A character between double quotes; `plain` says which ones need no escape by number. -/
def escapeDouble (plain : Char → Bool) (c : Char) : List Char :=
  match shortEscape? c with
  | some letter => ['\\', letter]
  | none => if plain c then [c] else (units c).flatMap fun n => '\\' :: 'u' :: hex 4 n

/-- A text between double quotes. -/
def quoteDouble (plain : Char → Bool) (text : List Char) : List Char :=
  '\x22' :: (text.flatMap (escapeDouble plain) ++ ['\x22'])

/-- Printable ASCII characters. -/
def isPlainAscii (c : Char) : Bool := ' ' ≤ c && c ≤ '~'

/-- Everything but the control characters under the space. -/
def isPlainText (c : Char) : Bool := ' ' ≤ c

/-- A character between the given single or double quotes. -/
def escapeSingle (quote c : Char) : List Char :=
  let n := c.toNat
  if c = quote || c = '\\' then ['\\', c]
  else if c = '\n' then ['\\', 'n']
  else if c = '\x0d' then ['\\', 'r']
  else if c = '\t' then ['\\', 't']
  else if isPrintable c then [c]
  else if n < 0x100 then '\\' :: 'x' :: hex 2 n
  else if n < 0x10000 then '\\' :: 'u' :: hex 4 n
  else '\\' :: 'U' :: hex 8 n

/-- The quote for a text: a single one, or a double one if the text holds a single quote and no
double one. -/
def quoteFor (text : List Char) : Char :=
  if text.contains '\x27' && !text.contains '\x22' then '\x22' else '\x27'

/-- A text between the quotes that are for it. -/
def quoteSingle (text : List Char) : List Char :=
  let quote := quoteFor text
  quote :: (text.flatMap (escapeSingle quote) ++ [quote])

/-- A byte between the given quotes, given as the character with its number. -/
def escapeByte (quote c : Char) : List Char :=
  if c.toNat < 0x80 then escapeSingle quote c else '\\' :: 'x' :: hex 2 c.toNat

/-- Bytes between the quotes that are for them. -/
def quoteBytes (bytes : List UInt8) : List Char :=
  let text := bytes.map fun byte => Char.ofNat byte.toNat
  let quote := quoteFor text
  'b' :: quote :: (text.flatMap (escapeByte quote) ++ [quote])

end FederationGraph.Text
