import FederationGraph.Decimal.Digits

/-!
# Places in a YAML document

A cursor stands in front of a character and knows its line and column. Lines end
at any of the five line break characters, and the byte order mark takes no
column. Three of the breaks stand for a line feed; the other two stand for
themselves.
-/
namespace FederationGraph.Yaml

/-- Why a text gives no document value. -/
inductive Fault where
  /-- The text breaks the grammar, or a tag does not fit its node. -/
  | malformed
  /-- A number, a day or a character is written that does not exist. -/
  | impossible
  /-- A number or a character is written that is too large to be looked at. -/
  | outOfRange
  /-- A number is written without any digit. -/
  | noDigits
  /-- A boolean is written with a word that is none. -/
  | noBoolean
  /-- A timestamp is written with a text that is none. -/
  | noTimestamp
  /-- A timestamp is written as a mapping. -/
  | timestampMapping
  /-- Nodes are nested too deeply, or the text of a node is that of the node itself. -/
  | tooDeep
  deriving DecidableEq, Repr, Inhabited

/-- The wording of a fault. -/
def Fault.message : Fault → String
  | .malformed => "not a YAML document"
  | .impossible => "a value that cannot be"
  | .outOfRange => "a value out of range"
  | .noDigits => "a number without digits"
  | .noBoolean => "a boolean with an unknown word"
  | .noTimestamp => "a timestamp with a text that is none"
  | .timestampMapping => "a timestamp that is a mapping"
  | .tooDeep => "nodes nested too deeply"

/-- Whether a character ends a line. -/
def isBreak (c : Char) : Bool :=
  c == '\n' || c == '\x0d' || c == '\u0085' || c == '\u2028' || c == '\u2029'

/-- Whether a character is a blank or ends a line. -/
def isGap (c : Char) : Bool := c == ' ' || c == '\t' || isBreak c

/-- Whether a document may hold a character. -/
def isAllowed (c : Char) : Bool :=
  let n := c.toNat
  n == 0x09 || n == 0x0A || n == 0x0D || (0x20 ≤ n && n ≤ 0x7E) || n == 0x85 ||
    (0xA0 ≤ n && n ≤ 0xD7FF) || (0xE000 ≤ n && n ≤ 0xFFFD) || 0x10000 ≤ n

/-- Whether a character may be part of the name of an anchor or a directive. -/
def isWordPart (c : Char) : Bool :=
  Decimal.isDigit c || ('a' ≤ c && c ≤ 'z') || ('A' ≤ c && c ≤ 'Z') || c == '-' || c == '_'

/-- A place in a document and what follows it. -/
structure Cursor where
  rest : List Char
  index : Nat
  line : Nat
  column : Nat
  deriving Repr, Inhabited

namespace Cursor

/-- The front of a document. -/
def start (text : List Char) : Cursor := ⟨text, 0, 0, 0⟩

/-- The character at a distance. -/
def peek (c : Cursor) (distance : Nat) : Option Char := c.rest[distance]?

/-- Whether a blank, a line end or the end of the document stands at a distance. -/
def gapAt (c : Cursor) (distance : Nat) : Bool := (c.peek distance).all isGap

/-- Whether a line or the document ends here. -/
def atLineEnd (c : Cursor) : Bool := (c.peek 0).all isBreak

/-- Whether a line ends here. -/
def atBreak (c : Cursor) : Bool := (c.peek 0).any isBreak

/-- The cursor one character further. -/
def next (c : Cursor) : Cursor :=
  match c.rest with
  | [] => c
  | ch :: rest =>
    if isBreak ch && !(ch == '\x0d' && rest.head? == some '\n') then
      ⟨rest, c.index + 1, c.line + 1, 0⟩
    else if ch == '\ufeff' then ⟨rest, c.index + 1, c.line, c.column⟩
    else ⟨rest, c.index + 1, c.line, c.column + 1⟩

/-- The cursor some characters further. -/
def skip (c : Cursor) : Nat → Cursor
  | 0 => c
  | n + 1 => c.next.skip n

/-- The characters from here on that satisfy a condition, and the cursor behind them. -/
def run (c : Cursor) (condition : Char → Bool) : List Char × Cursor :=
  let taken := c.rest.takeWhile condition
  (taken, c.skip taken.length)

/-- The cursor behind spaces. -/
def skipSpaces (c : Cursor) : Cursor := (c.run (· == ' ')).2

/-- The cursor behind spaces, at the given column at most. -/
def skipSpacesTo (c : Cursor) (column : Int) : Cursor :=
  let room := (column - c.column).toNat
  c.skip ((c.rest.take room).takeWhile (· == ' ')).length

/-- The meaning of a line end at this place and the cursor behind it. -/
def lineEnd? (c : Cursor) : Option (Char × Cursor) :=
  match c.rest with
  | '\x0d' :: '\n' :: _ => some ('\n', c.skip 2)
  | ch :: _ =>
    if ch == '\u2028' || ch == '\u2029' then some (ch, c.next)
    else if isBreak ch then some ('\n', c.next)
    else none
  | [] => none

/-- The cursor behind a line end, if one stands here. -/
def skipLineEnd (c : Cursor) : Cursor :=
  match c.lineEnd? with
  | some (_, behind) => behind
  | none => c

/-- Whether three equal characters and a gap stand here. -/
def marks (c : Cursor) (ch : Char) : Bool := c.rest.take 3 == [ch, ch, ch] && c.gapAt 3

/-- Whether a line that starts here separates documents. -/
def separates (c : Cursor) : Bool := c.marks '-' || c.marks '.'

/-- The cursor behind spaces, a comment and the line end after them; nothing else may come. -/
def finishLine (c : Cursor) : Except Fault Cursor :=
  let c := c.skipSpaces
  let c := if c.peek 0 == some '#' then (c.run fun ch => !isBreak ch).2 else c
  if c.atLineEnd then .ok c.skipLineEnd else .error .malformed

end Cursor

end FederationGraph.Yaml
