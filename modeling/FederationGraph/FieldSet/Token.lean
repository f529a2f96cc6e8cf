import FederationGraph.Text.Blank

/-!
# Tokens of a field set

A field set is the inside of a selection set: names and braces, set apart by
blanks and commas. Fragment spreads are not expanded. A spread's marker, its
fragment name and its type condition are left out of the tokens, so that only
field names and braces remain.
-/
namespace FederationGraph.FieldSet

open Text

/-- A brace or a run of characters between braces and separators. -/
inductive Token where
  | opening
  | closing
  | name (text : String)
  deriving DecidableEq, Repr, Inhabited

/-- The text a token was read from. -/
def Token.text : Token → String
  | .opening => "\x7b"
  | .closing => "\x7d"
  | .name text => text

/-- Whether a token is a brace. -/
def Token.isBrace : Token → Bool
  | .name _ => false
  | _ => true

/-- Blanks and commas separate names and mean nothing else. -/
def isSeparator (c : Char) : Bool := c == ',' || isBlank c

/-- The characters that make up names. -/
def isNameChar (c : Char) : Bool := !(isSeparator c || c == '{' || c == '}')

/-- All tokens of a text, spreads included. -/
def rawTokens : List Char → List Token
  | [] => []
  | c :: rest =>
    if c = '{' then .opening :: rawTokens rest
    else if c = '}' then .closing :: rawTokens rest
    else if isSeparator c then rawTokens rest
    else
      .name (String.ofList (c :: rest.takeWhile isNameChar)) ::
        rawTokens (rest.dropWhile isNameChar)
termination_by text => text.length
decreasing_by
  all_goals simp only [List.length_cons]
  all_goals first
    | omega
    | exact Nat.lt_succ_of_le (List.dropWhile_sublist isNameChar).length_le

/-- The mark that opens a fragment spread. -/
def spreadMark : String := "..."

/-- The word between a spread's mark and its type condition. -/
def conditionWord : String := "on"

/-- Whether a name starts with the spread mark. -/
def isSpread (name : String) : Bool := spreadMark.toList.isPrefixOf name.toList

/--
How many tokens behind a spread belong to it. A bare mark takes the fragment
name, or the condition word with the token after it; a mark joined to the
condition word takes the type name. A brace right behind the mark is not taken.
-/
def spreadLength (mark : String) : List Token → Nat
  | .name next :: _ =>
    if mark = spreadMark then (if next = conditionWord then 2 else 1)
    else if mark = spreadMark ++ conditionWord then 1
    else 0
  | _ => 0

/-- The tokens without fragment spreads. -/
def dropSpreads : List Token → List Token
  | [] => []
  | .name text :: rest =>
    if isSpread text then dropSpreads (rest.drop (spreadLength text rest))
    else .name text :: dropSpreads rest
  | brace :: rest => brace :: dropSpreads rest
termination_by tokens => tokens.length
decreasing_by all_goals simp only [List.length_cons, List.length_drop]; omega

/-- The field names and braces of a field set in document order. -/
def tokens (fieldSet : String) : List Token := dropSpreads (rawTokens fieldSet.toList)

end FederationGraph.FieldSet
