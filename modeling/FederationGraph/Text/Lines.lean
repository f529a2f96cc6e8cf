/-!
# Lines

A line ends at a line feed, at a carriage return, or at the two together. Text
that reaches the program from a file has line feeds only.
-/
namespace FederationGraph.Text

/-- The lines of a text; there is one more than there are line ends. -/
def lines : List Char → List (List Char)
  | [] => [[]]
  | '\x0d' :: '\n' :: rest => [] :: lines rest
  | c :: rest =>
    if c = '\n' || c = '\x0d' then [] :: lines rest
    else
      match lines rest with
      | line :: more => (c :: line) :: more
      | [] => [[c]]

/-- The text with every line end written as a line feed. -/
def unifyLineEnds : List Char → List Char
  | [] => []
  | '\x0d' :: '\n' :: rest => '\n' :: unifyLineEnds rest
  | c :: rest => (if c = '\x0d' then '\n' else c) :: unifyLineEnds rest

/-- The number of blanks at the front of a line. -/
def indentation (line : List Char) : Nat := (line.takeWhile fun c => c = ' ' || c = '\t').length

/-- Whether a line holds nothing but blanks. -/
def isBlankLine (line : List Char) : Bool := indentation line = line.length

/-- The least indentation of the lines that hold more than blanks. -/
def commonIndentation (ls : List (List Char)) : Nat :=
  ((ls.filter fun line => !isBlankLine line).map indentation).min?.getD 0

/-- Lines without those at either end that hold nothing but blanks. -/
def trimBlankLines (ls : List (List Char)) : List (List Char) :=
  ((ls.dropWhile isBlankLine).reverse.dropWhile isBlankLine).reverse

/-- The lines with their common indentation taken off all but the first. -/
def outdent : List (List Char) → List (List Char)
  | [] => []
  | first :: rest => first :: rest.map (List.drop (commonIndentation rest))

end FederationGraph.Text
