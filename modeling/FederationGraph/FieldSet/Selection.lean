import FederationGraph.FieldSet.Token
import FederationGraph.Path

/-!
# Selections of a field set

Reading the tokens of a field set gives one selection for each name, in document
order, with the path of the names whose braces enclose it. A name with braces is
selected itself, ahead of what its braces hold.

A brace belongs to the name right in front of it. Any other opening brace opens
an anonymous scope that adds nothing to paths. A closing brace closes the
innermost open scope and means nothing when none is open, so every text can be
read.
-/
namespace FederationGraph.FieldSet

/-- A selected field and its dotted path from the root of the field set. -/
structure Selection where
  field : String
  path : String
  deriving DecidableEq, Repr, Inhabited

/-- The segments of a selection's path. -/
def Selection.segments (s : Selection) : List String := Path.segments s.path

/-- Where the reader stands between two tokens. -/
structure Cursor where
  /-- The names whose braces are open, innermost first; after a name that is about to be
  opened, that name comes first. -/
  path : List String
  /-- One flag for each open brace, innermost first: whether it opened the sub-selection of
  the name then on top of `path`. -/
  scopes : List Bool
  /-- Whether the next token opens the braces of the name on top of `path`. -/
  opens : Bool
  deriving DecidableEq, Repr, Inhabited

/-- The cursor in front of a field set. -/
def Cursor.start : Cursor := ⟨[], [], false⟩

/-- The selection of a name read at this cursor. -/
def Cursor.select (c : Cursor) (name : String) : Selection :=
  ⟨name, Path.ofNames (name :: c.path).reverse⟩

/-- The cursor behind `token`; `rest` is what follows the token. -/
def Cursor.advance (c : Cursor) (token : Token) (rest : List Token) : Cursor :=
  match token with
  | .opening => ⟨c.path, c.opens :: c.scopes, false⟩
  | .closing =>
    match c.scopes with
    | true :: scopes => ⟨c.path.tail, scopes, c.opens⟩
    | false :: scopes => ⟨c.path, scopes, c.opens⟩
    | [] => c
  | .name text =>
    if rest.head? = some .opening then ⟨text :: c.path, c.scopes, true⟩
    else ⟨c.path, c.scopes, false⟩

/-- The selections read from a cursor on. -/
def selectionsFrom (c : Cursor) : List Token → List Selection
  | [] => []
  | .name text :: rest => c.select text :: selectionsFrom (c.advance (.name text) rest) rest
  | brace :: rest => selectionsFrom (c.advance brace rest) rest

/-- The selections of a field set, containers ahead of what they contain. -/
def selections (fieldSet : String) : List Selection :=
  selectionsFrom .start (tokens fieldSet)

end FederationGraph.FieldSet
