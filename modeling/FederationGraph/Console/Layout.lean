import FederationGraph.Text.Columns

/-!
# Layout

The console is a fixed number of columns wide. Texts are laid out line by line
with tabs widened to the next stop. A rule is a title in the middle of a line. A
table frames its cells: a heavy frame for the header, a light one for the rows
below, and every column as wide as its widest cell.
-/
namespace FederationGraph.Console

/-- The width of the console. -/
def width : Nat := 200

/-- The distance between tab stops. -/
def tabWidth : Nat := 8

/-- The least multiple of the distance between tab stops that is not under a column. -/
def nextStop (column : Nat) : Nat := (column + tabWidth - 1) / tabWidth * tabWidth

/-- The parts of a line between its tabs, put together with spaces up to the next stop after each of
them but the last; the first one starts in a given column. -/
def joinAtStops (column : Nat) : List (List Char) → List Char
  | [] => []
  | [part] => part
  | part :: rest =>
    let spaced := part ++ [' ']
    let behind := column + Text.columns spaced
    spaced ++ List.replicate (nextStop behind - behind) ' ' ++ joinAtStops (nextStop behind) rest

/-- The line with spaces in place of its tabs. -/
def expandTabs (line : List Char) : List Char := joinAtStops 0 (line.splitOn '\t')

/-- The lines of a text. -/
def linesOf (text : List Char) : List (List Char) := (text.splitOn '\n').map expandTabs

/-- A line filled up with spaces to a number of columns. -/
def fill (columns : Nat) (line : List Char) : List Char :=
  line ++ List.replicate (columns - Text.columns line) ' '

/-! ## Rules -/

/-- A rule with a title in its middle; of an odd number of columns the right side gets one more. -/
def rule (title : List Char) : List Char :=
  let line := expandTabs (title.map fun c => if c = '\n' then ' ' else c)
  let spare := width - (Text.columns line + 2)
  List.replicate (spare / 2) '─' ++ ' ' :: line ++ ' ' :: List.replicate (spare - spare / 2) '─'

/-! ## Tables -/

/-- A cell of a table by its lines. -/
abbrev Cell := List (List Char)

/-- The columns that a cell takes. -/
def Cell.columns (cell : Cell) : Nat := (cell.map Text.columns).foldl max 0

/-- The widths of the columns of a table with at least the given ones. -/
def columnWidths (widths : List Nat) (rows : List (List Cell)) : List Nat :=
  rows.foldl (fun widths row => widths.zipWith max (row.map Cell.columns)) widths

/-- A line of a frame: its left end, filling, crossings and right end. -/
def frameLine (left filling crossing right : Char) (widths : List Nat) : List Char :=
  left :: [crossing].intercalate (widths.map fun n => List.replicate (n + 2) filling) ++ [right]

/-- One line of a row of cells between bars. -/
def rowLine (bar : Char) (widths : List Nat) (row : List Cell) (line : Nat) : List Char :=
  bar :: (widths.zip row).flatMap fun (columns, cell) =>
    ' ' :: fill columns ((cell[line]?).getD []) ++ [' ', bar]

/-- The lines of a row of cells between bars. -/
def rowLines (bar : Char) (widths : List Nat) (row : List Cell) : List (List Char) :=
  (List.range ((row.map List.length).foldl max 0)).map (rowLine bar widths row)

/-- The lines of a table. -/
def table (header : List Cell) (rows : List (List Cell)) : List (List Char) :=
  let widths := columnWidths (header.map Cell.columns) rows
  frameLine '┏' '━' '┳' '┓' widths :: rowLines '┃' widths header ++
    frameLine '┡' '━' '╇' '┩' widths :: rows.flatMap (rowLines '│' widths) ++
    [frameLine '└' '─' '┴' '┘' widths]

end FederationGraph.Console
