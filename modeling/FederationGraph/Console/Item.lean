import FederationGraph.Console.Layout
import FederationGraph.Console.Markup

/-!
# Console items

What a command prints is a sequence of items. Messages have a level and are left
out below a threshold; all other items are always printed. Texts, titles and
cells may be marked; messages and plain texts are printed as they are.
-/
namespace FederationGraph.Console

/-- How much a message matters. -/
inductive Level where
  | debug
  | info
  | warning
  | error
  | critical
  deriving DecidableEq, Repr, Inhabited

namespace Level

/-- The word for a level. -/
def word : Level → String
  | .debug => "DEBUG"
  | .info => "INFO"
  | .warning => "WARNING"
  | .error => "ERROR"
  | .critical => "CRITICAL"

/-- The levels, the least first. -/
def all : List Level := [.debug, .info, .warning, .error, .critical]

/-- The position of a level among all of them. -/
def rank : Level → Nat
  | .debug => 0
  | .info => 1
  | .warning => 2
  | .error => 3
  | .critical => 4

/-- The level of a word in any case. -/
def ofWord? (word : String) : Option Level :=
  all.find? fun level => level.word.toList == word.toList.map Char.toUpper

/-- Whether messages of a level reach a threshold. -/
def reaches (level threshold : Level) : Bool := threshold.rank ≤ level.rank

end Level

/-- Something to print. -/
inductive Item where
  | message (level : Level) (text : String)
  | plain (text : String)
  | marked (text : String)
  | rule (title : String)
  | table (header : List String) (rows : List (List String))
  deriving DecidableEq, Repr, Inhabited

/-- The columns before the text of a message. -/
def messageIndent : Nat := 9

/-- The lines of a message: its level before the first line and spaces before the others. -/
def messageLines (level : Level) (text : String) : List (List Char) :=
  match linesOf (printed text.toList) with
  | [] => []
  | first :: rest =>
    (fill messageIndent level.word.toList ++ first) ::
      rest.map (List.replicate messageIndent ' ' ++ ·)

/-- The cell that a marked text makes. -/
def cell? (text : String) : Option Cell := (unmark? text).map linesOf

namespace Item

/-- The lines of an item, unless its tags do not fit together. -/
def lines? (threshold : Level) : Item → Option (List (List Char))
  | .message level text => some (if level.reaches threshold then messageLines level text else [])
  | .plain text => some (text.toList.splitOn '\n')
  | .marked text => (unmark? text).map linesOf
  | .rule title => (unmark? title).map fun title => [Console.rule title]
  | .table header rows => do
    let header ← header.mapM cell?
    let rows ← rows.mapM (·.mapM cell?)
    some (Console.table header rows)

/-- The text of a success. -/
def success (text : String) : Item := .marked ("[green]✓[/green] " ++ text)

/-- A value behind its label. -/
def labelled (label value : String) : Item := .marked ("[dim]" ++ label ++ ":[/dim] " ++ value)

/-- A highlighted text. -/
def highlighted (text : String) : Item := .marked ("[bold cyan]" ++ text ++ "[/bold cyan]")

/-- A member of a list. -/
def bullet (text : String) : Item := .marked ("- " ++ text)

/-- A rule with a highlighted title. -/
def heading (title : String) : Item := .rule ("[bold blue]" ++ title)

/-- An empty line. -/
def blank : Item := .marked ""

end Item

/-- The lines of items up to the first whose tags do not fit together, and whether there is no such
item. -/
def print (threshold : Level) : List Item → List String × Bool
  | [] => ([], true)
  | item :: rest =>
    match item.lines? threshold with
    | none => ([], false)
    | some lines =>
      let (more, complete) := print threshold rest
      (lines.map String.ofList ++ more, complete)

end FederationGraph.Console
