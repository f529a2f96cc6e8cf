import FederationGraph.Console.Literal
import FederationGraph.Console.Style

/-!
# Marked text

Text for the console may hold tags in square brackets. A tag opens a style, and a
tag with a slash closes the innermost open style of its name, or the innermost of
all if it names none. A closing tag without an open one is a fault. Styles
themselves do not show. A tag that begins with an at sign is an action; what it is
called with has to be literals by the time it is closed.

A backslash before a tag turns it into plain text, and two of them stand for one.
Before a bracket that opens no tag a single backslash vanishes.
-/
namespace FederationGraph.Console

/-- Whether a character may come first in a tag. -/
def opensTag (c : Char) : Bool := ('a' ≤ c && c ≤ 'z') || c = '#' || c = '/' || c = '@'

/-- The text of a tag and what follows it, read behind the opening bracket. -/
def tagBehind? (text : List Char) : Option (List Char × List Char) :=
  let tag := text.takeWhile fun c => c != '[' && c != ']'
  match text.drop tag.length with
  | ']' :: rest => if tag.head?.any opensTag then some (tag, rest) else none
  | _ => none

theorem length_of_tagBehind? {text tag rest : List Char} (h : tagBehind? text = some (tag, rest)) :
    rest.length < text.length := by
  unfold tagBehind? at h
  dsimp only at h
  split at h
  case h_1 rest' drop_eq =>
    split at h
    · have hlen := congrArg List.length drop_eq
      simp only [List.length_drop, List.length_cons] at hlen
      obtain ⟨_, rfl⟩ := Prod.mk.inj (Option.some.inj h)
      omega
    · cases h
  case h_2 => cases h

/-- A piece of marked text. -/
inductive Piece where
  | letter (c : Char)
  | tag (text : List Char)
  deriving DecidableEq, Repr

/-- A number of backslashes. -/
def backslashes (n : Nat) : List Char := List.replicate n '\\'

/-- The pieces of a text; `slashes` backslashes came before it. -/
def pieces (slashes : Nat) : List Char → List Piece
  | [] => (backslashes slashes).map .letter
  | c :: rest =>
    if c = '\\' then pieces (slashes + 1) rest
    else if c = '[' then
      match _h : tagBehind? rest with
      | some (tag, after) =>
        (backslashes (slashes / 2)).map .letter ++
          (if slashes % 2 = 1 then ('[' :: tag ++ [']']).map .letter else [.tag tag]) ++
          pieces 0 after
      | none => (backslashes (slashes - 1)).map .letter ++ .letter c :: pieces 0 rest
    else (backslashes slashes).map .letter ++ .letter c :: pieces 0 rest
termination_by text => text.length
decreasing_by
  all_goals simp only [List.length_cons]
  all_goals first
    | omega
    | exact Nat.lt_succ_of_lt (length_of_tagBehind? _h)

/-- An open tag: its name, and what stands behind an equals sign. -/
structure Opened where
  name : String
  parameters : List Char
  deriving DecidableEq, Repr

/-- The name in a tag: what comes before an equals sign. -/
def tagName (tag : List Char) : List Char := tag.takeWhile (· != '=')

/-- The tag that is open behind a piece. -/
def Opened.ofTag (tag : List Char) : Opened :=
  ⟨Style.nameOf (tagName tag), (tag.dropWhile (· != '=')).tail⟩

/-- Whether a character may be part of the name of what an action calls. -/
def isCalledChar (c : Char) : Bool := Literal.isWordChar c || c = '.'

/-- The arguments of an action: what stands in the parentheses behind the name of what it calls,
with them, or everything if it calls nothing. -/
def argumentsOf (parameters : List Char) : List Char :=
  match parameters.dropWhile isCalledChar with
  | [] => ['(', ')']
  | '(' :: rest =>
    if rest.getLast? = some ')' && !rest.contains '\n' then '(' :: rest else parameters
  | _ => parameters

/-- Whether an open tag may be closed: the arguments of an action are literals. -/
def Opened.isClosable (opened : Opened) : Bool :=
  opened.name.toList.head? != some '@' || opened.parameters.isEmpty ||
    Literal.isLiteral (argumentsOf (Style.trimmed opened.parameters))

/-- The open tags, innermost first, after a closing tag for a name. -/
def close (opened : List Opened) (name : List Char) : Option (List Opened) :=
  let matching := if name.all Text.isBlank then opened.head?
    else opened.find? fun tag => tag.name == Style.nameOf name
  match matching with
  | some tag => if tag.isClosable then some (opened.erase tag) else none
  | none => none

/-- Whether a character steers the terminal and is not printed. -/
def isSteering (c : Char) : Bool := [7, 8, 11, 12, 13].contains c.toNat

/-- A text without the characters that steer the terminal. -/
def printed (text : List Char) : List Char := text.filter fun c => !isSteering c

/-- The letters that pieces show while some tags are open, unless a closing tag does not fit. -/
def shown (opened : List Opened) : List Piece → Option (List Char)
  | [] => some []
  | .letter c :: rest => (shown opened rest).map (c :: ·)
  | .tag tag :: rest =>
    match tagName tag with
    | '/' :: name => (close opened name).bind fun opened => shown opened rest
    | _ => shown (Opened.ofTag tag :: opened) rest

/-- What a marked text shows, unless its tags do not fit together. -/
def unmark? (text : String) : Option (List Char) := (shown [] (pieces 0 text.toList)).map printed

/-- The text with a backslash before everything that reads as a tag, and twice the backslashes
that are already there; `slashes` backslashes came before it. -/
def escapeTags (slashes : Nat) : List Char → List Char
  | [] => backslashes slashes
  | c :: rest =>
    if c = '\\' then escapeTags (slashes + 1) rest
    else if c = '[' && (tagBehind? rest).isSome then
      backslashes (2 * slashes + 1) ++ c :: escapeTags 0 rest
    else backslashes slashes ++ c :: escapeTags 0 rest

/-- Twice the backslash at the end of a text, if it is the only one there. -/
def guardEnd (text : List Char) : List Char :=
  match text.reverse with
  | '\\' :: '\\' :: _ => text
  | '\\' :: _ => text ++ ['\\']
  | _ => text

/-- The marked text that shows a given one. -/
def escape (text : String) : String := String.ofList (guardEnd (escapeTags 0 text.toList))

end FederationGraph.Console
