import FederationGraph.Decimal.Digits
import FederationGraph.Document.Fault
import FederationGraph.Text.Lines

/-!
# Excerpts

The place of a fault in a file is shown by its line and column, the line itself
with a caret under the column, and the lines around it. A line of more than 120
characters is cut into pieces of 80 instead, and the pieces up to the one behind
the caret are shown.
-/
namespace FederationGraph.Document

/-- A line and a column, both counted from one. -/
structure Location where
  line : Nat
  column : Nat
  deriving DecidableEq, Repr

/-- The location of the character at a position. -/
def locate (text : List Char) (position : Nat) : Location :=
  let before := Text.lines (text.take position)
  ⟨before.length, (before.getLast?.getD []).length + 1⟩

/-- The longest line that is shown in one piece. -/
def longestLine : Nat := 120

/-- The length of the pieces of a longer line. -/
def pieceLength : Nat := 80

/-- The pieces of a line, as many as the fuel says at most. -/
def piecesOf : Nat → List Char → List (List Char)
  | 0, _ => []
  | _, [] => []
  | fuel + 1, line => line.take pieceLength :: piecesOf fuel (line.drop pieceLength)

/-- The pieces of a line. -/
def pieces (line : List Char) : List (List Char) := piecesOf line.length line

/-- Text pushed to the right until it ends at the column. -/
def endingAt (column : Nat) (text : List Char) : List Char :=
  List.replicate (column - text.length) ' ' ++ text

/-- The label in front of a line of the given number. -/
def numbered (line : Nat) : List Char := Decimal.digits line ++ [' ', '|']

/-- The label in front of what is no line of its own. -/
def unnumbered : List Char := ['|']

/-- Rows of labels and texts, the labels ending at one column. -/
def showRows (rows : List (List Char × List Char)) : List Char :=
  let width := (rows.map fun row => row.1.length).foldl max 0
  ['\n'].intercalate (rows.map fun row =>
    endingAt width row.1 ++ (if row.2.isEmpty then [] else ' ' :: row.2))

/-- The rows of a line shown in one piece. -/
def wholeRows (lines : List (List Char)) (location : Location) (line : List Char) :
    List (List Char × List Char) :=
  let earlier :=
    if location.line ≤ 1 then none else lines[location.line - 2]?
  let later := lines[location.line]?
  (earlier.map fun text => (numbered (location.line - 1), text)).toList ++
    [(numbered location.line, line), (unnumbered, endingAt location.column ['^'])] ++
    (later.map fun text => (numbered (location.line + 1), text)).toList

/-- The rows of a line shown in pieces. -/
def pieceRows (location : Location) (line : List Char) : List (List Char × List Char) :=
  let parts := pieces line
  let index := min ((location.column - 1) / pieceLength) (parts.length - 1)
  let column := location.column - index * pieceLength
  let between := (parts.drop 1).take index
  [(numbered location.line, parts.headD [])] ++ between.map (fun part => (unnumbered, part)) ++
    [(unnumbered, endingAt column ['^'])] ++
    (parts[index + 1]?.map fun part => (unnumbered, part)).toList

/-- The excerpt of a text around a position. -/
def excerpt (text : List Char) (position : Nat) : String :=
  let location := locate text position
  let lines := Text.lines text
  let line := lines[location.line - 1]?.getD []
  let rows :=
    if longestLine < line.length then pieceRows location line else wholeRows lines location line
  "GraphQL request:" ++ Decimal.text location.line ++ ":" ++ Decimal.text location.column ++
    "\n" ++ String.ofList (showRows rows)

/-- The message of a fault with the excerpt of the text around it. -/
def Fault.messageIn (f : Fault) (text : String) : String :=
  f.message ++ "\n\n" ++ excerpt text.toList f.position

end FederationGraph.Document
