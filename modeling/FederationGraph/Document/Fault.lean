import FederationGraph.Text.Hexadecimal

/-!
# Faults of a document

A text that is no document has a first fault: what is wrong and the place where
it shows. The wording of every fault is fixed here.
-/
namespace FederationGraph.Document

/-- The marks of the grammar. -/
inductive Mark where
  | bang
  | dollar
  | ampersand
  | parenLeft
  | parenRight
  | spread
  | colon
  | equals
  | at
  | bracketLeft
  | bracketRight
  | braceLeft
  | pipe
  | braceRight
  deriving DecidableEq, Repr, Inhabited

/-- How a mark is written. -/
def Mark.text : Mark → String
  | .bang => "!"
  | .dollar => "$"
  | .ampersand => "&"
  | .parenLeft => "("
  | .parenRight => ")"
  | .spread => "..."
  | .colon => ":"
  | .equals => "="
  | .at => "@"
  | .bracketLeft => "["
  | .bracketRight => "]"
  | .braceLeft => "\x7b"
  | .pipe => "|"
  | .braceRight => "\x7d"

/-- What a token is. Numbers keep their text, quoted texts their meaning. -/
inductive Lexeme where
  | mark (mark : Mark)
  | name (text : String)
  | int (text : String)
  | float (text : String)
  | quoted (text : String)
  | block (text : String)
  | finish
  deriving DecidableEq, Repr, Inhabited

/-- A text that is part of a message, between single quotes. -/
def between (text : String) : String := "\x27" ++ text ++ "\x27"

/-- A kind of token with the text it carries. -/
def carrying (kind text : String) : String := kind ++ " " ++ between text

/-- A token as a message names it. -/
def Lexeme.describe : Lexeme → String
  | .mark m => between m.text
  | .name text => carrying "Name" text
  | .int text => carrying "Int" text
  | .float text => carrying "Float" text
  | .quoted text => carrying "String" text
  | .block text => carrying "BlockString" text
  | .finish => "<EOF>"

/-- The text a token carries. -/
def Lexeme.carried? : Lexeme → Option String
  | .name text => some text
  | .int text => some text
  | .float text => some text
  | .quoted text => some text
  | .block text => some text
  | _ => none

/-- A character of the text as a message names it; nothing is the end of the text. -/
def describeCharacter : Option Char → String
  | none => "<EOF>"
  | some c =>
    if ' ' ≤ c && c ≤ '~' then between (String.singleton c)
    else "U+" ++ String.ofList ((Text.hex 4 c.toNat).map Char.toUpper)

/-- What can be wrong with a text. -/
inductive Cause where
  | unexpectedCharacter (c : Char)
  | singleQuote
  | twoDots
  | digitAfterZero (found : Option Char)
  | missingDigit (found : Option Char)
  | missingWholePart (fraction : String)
  | unterminated
  | badEscape (text : String)
  | badCodePoint (text : String)
  | expected (what : String) (found : Lexeme)
  | unexpected (found : Lexeme)
  | variableInConstant (name : String)
  | reservedName (found : Lexeme)
  | uselessDescription
  | describedShorthand
  | tooDeep
  deriving DecidableEq, Repr, Inhabited

/-- The wording of a cause. -/
def Cause.message : Cause → String
  | .unexpectedCharacter c => "Unexpected character: " ++ describeCharacter (some c) ++ "."
  | .singleQuote =>
    "Unexpected single quote character (\x27), did you mean to use a double quote (\x22)?"
  | .twoDots => "Unexpected \x27..\x27, did you mean \x27...\x27?"
  | .digitAfterZero found =>
    "Invalid number, unexpected digit after 0: " ++ describeCharacter found ++ "."
  | .missingDigit found =>
    "Invalid number, expected digit but got: " ++ describeCharacter found ++ "."
  | .missingWholePart fraction =>
    "Invalid number, expected digit before \x27.\x27, did you mean \x270." ++ fraction ++ "\x27?"
  | .unterminated => "Unterminated string."
  | .badEscape text => "Invalid character escape sequence: " ++ between text ++ "."
  | .badCodePoint text => "Invalid Unicode escape sequence: " ++ between text ++ "."
  | .expected what found => "Expected " ++ what ++ ", found " ++ found.describe ++ "."
  | .unexpected found => "Unexpected " ++ found.describe ++ "."
  | .variableInConstant name =>
    "Unexpected variable \x27$" ++ name ++ "\x27 in constant value."
  | .reservedName found =>
    found.describe ++ " is reserved and cannot be used for an enum value."
  | .uselessDescription =>
    "Unexpected description, only GraphQL definitions support descriptions."
  | .describedShorthand =>
    "Unexpected description, descriptions are not supported on shorthand queries."
  | .tooDeep => "Document is nested too deeply. Parsing aborted."

/-- A cause and the number of characters in front of the place where it shows. -/
structure Fault where
  cause : Cause
  position : Nat
  deriving DecidableEq, Repr, Inhabited

/-- The message of a fault. -/
def Fault.message (f : Fault) : String := "Syntax Error: " ++ f.cause.message

end FederationGraph.Document
