import FederationGraph.Text.Blank

/-!
# Subgraph labels

A schema says in a comment which subgraph it belongs to: a number sign, the word
`Subgraph:` in any case, and the label, with blanks of any kind between them. The
first such place in the text counts. Without one the label is the name of the
schema's file up to its first point or hyphen.
-/
namespace FederationGraph.Schema

open Text

/-- The letters of the marker between the number sign and the label. -/
def marker : List Char := ['s', 'u', 'b', 'g', 'r', 'a', 'p', 'h', ':']

/-- Whether a character is a letter in either case; the long s is a case of s. -/
def matchesLetter (letter c : Char) : Bool :=
  c == letter || c == letter.toUpper || (letter == 's' && c == '\u017f')

/-- What follows the letters at the front of a text, in any case. -/
def behindLetters : List Char → List Char → Option (List Char)
  | [], text => some text
  | _ :: _, [] => none
  | letter :: letters, c :: text =>
    if matchesLetter letter c then behindLetters letters text else none

/-- The label behind a number sign, if the marker and a label follow it. -/
def labelBehind (text : List Char) : Option (List Char) :=
  (behindLetters marker (text.dropWhile isBlank)).bind fun rest =>
    let label := (rest.dropWhile isBlank).takeWhile isSolid
    if label.isEmpty then none else some label

/-- The first label that a comment of a text gives. -/
def commentLabel? : List Char → Option (List Char)
  | [] => none
  | c :: rest =>
    if c = '#' then
      match labelBehind rest with
      | some label => some label
      | none => commentLabel? rest
    else commentLabel? rest

/-- The last component of a path with slashes of either kind. -/
def lastComponent (path : List Char) : List Char :=
  (path.reverse.takeWhile fun c => c != '/' && c != '\\').reverse

/-- The file name of a path up to its first point or hyphen. -/
def fileLabel (identifier : List Char) : List Char :=
  (lastComponent identifier).takeWhile fun c => c != '.' && c != '-'

/-- The label of a schema of which nothing else is known. -/
def unknownLabel : String := "unknown"

/-- The label of a schema. -/
def label (source identifier : String) : String :=
  match commentLabel? source.toList with
  | some label => String.ofList label
  | none =>
    let label := fileLabel identifier.toList
    if label.isEmpty then unknownLabel else String.ofList label

end FederationGraph.Schema
