import FederationGraph.Decimal.Digits
import FederationGraph.Document.Fault
import FederationGraph.Text.Lines

/-!
# Tokens of a document

Blanks, commas, line ends, byte order marks and comments separate tokens and
mean nothing else. The scan of a text gives its tokens in order. It ends with
the token for the end of the text, or with the first place at which no token can
be read.
-/
namespace FederationGraph.Document

/-- A lexeme and the number of characters in front of it. -/
structure Token where
  lexeme : Lexeme
  position : Nat
  deriving DecidableEq, Repr, Inhabited

/-- The tokens of a text up to its end or its first lexical fault. -/
structure Scan where
  tokens : List Token
  fault? : Option Fault
  deriving DecidableEq, Repr, Inhabited

/-- What a step of the scan gives: a value, or a cause with its distance from the token's start. -/
abbrev Step (α : Type) := Except (Cause × Nat) α

/-- The characters between tokens. -/
def isIgnored (c : Char) : Bool :=
  c == ' ' || c == '\t' || c == ',' || c == '\n' || c == '\x0d' || c == '\ufeff'

/-- The characters a name may start with. -/
def isNameStart (c : Char) : Bool :=
  ('a' ≤ c && c ≤ 'z') || ('A' ≤ c && c ≤ 'Z') || c == '_'

/-- The characters a name goes on with. -/
def isNamePart (c : Char) : Bool := isNameStart c || Decimal.isDigit c

/-- Whether a character ends a line. -/
def isLineEnd (c : Char) : Bool := c == '\n' || c == '\x0d'

/-- The mark a single character makes. -/
def mark? (c : Char) : Option Mark :=
  if c = '!' then some .bang
  else if c = '$' then some .dollar
  else if c = '&' then some .ampersand
  else if c = '(' then some .parenLeft
  else if c = ')' then some .parenRight
  else if c = ':' then some .colon
  else if c = '=' then some .equals
  else if c = '@' then some .at
  else if c = '[' then some .bracketLeft
  else if c = ']' then some .bracketRight
  else if c = '{' then some .braceLeft
  else if c = '|' then some .pipe
  else if c = '}' then some .braceRight
  else none

/-! ## Numbers -/

/-- How many digits stand at the front of a text, at least one; `offset` is its distance. -/
def digitRun (offset : Nat) (text : List Char) : Step Nat :=
  match text.takeWhile Decimal.isDigit with
  | [] => .error (.missingDigit text.head?, offset)
  | digits => .ok digits.length

/-- The width of a whole number: a single zero, or digits. -/
def wholeWidth (offset : Nat) (text : List Char) : Step Nat :=
  match text with
  | '0' :: rest =>
    if rest.head?.any Decimal.isDigit then .error (.digitAfterZero rest.head?, offset + 1)
    else .ok 1
  | _ => digitRun offset text

/-- The width of a fraction with its point, zero if there is none. -/
def fractionWidth (offset : Nat) (text : List Char) : Step Nat :=
  match text with
  | '.' :: rest => (digitRun (offset + 1) rest).map (· + 1)
  | _ => .ok 0

/-- The width of an exponent with its mark and sign, zero if there is none. -/
def exponentWidth (offset : Nat) (text : List Char) : Step Nat :=
  match text with
  | c :: rest =>
    if c = 'e' || c = 'E' then
      match rest with
      | '+' :: behind => (digitRun (offset + 2) behind).map (· + 2)
      | '-' :: behind => (digitRun (offset + 2) behind).map (· + 2)
      | _ => (digitRun (offset + 1) rest).map (· + 1)
    else .ok 0
  | [] => .ok 0

/-- The number at the front of a text and its width. -/
def scanNumber (text : List Char) : Step (Lexeme × Nat) := do
  let sign := if text.head? = some '-' then 1 else 0
  let whole ← wholeWidth sign (text.drop sign)
  let fraction ← fractionWidth (sign + whole) (text.drop (sign + whole))
  let exponent ←
    exponentWidth (sign + whole + fraction) (text.drop (sign + whole + fraction))
  let width := sign + whole + fraction + exponent
  let next := (text.drop width).head?
  if next.any fun c => c == '.' || isNameStart c then
    throw (.missingDigit next, width)
  let written := String.ofList (text.take width)
  return (if fraction + exponent = 0 then .int written else .float written, width)

/-! ## Quoted texts -/

/-- The character a short escape stands for. -/
def escaped? (c : Char) : Option Char :=
  if c = '\x22' || c = '\\' || c = '/' then some c
  else if c = 'b' then some '\x08'
  else if c = 'f' then some '\x0c'
  else if c = 'n' then some '\n'
  else if c = 'r' then some '\x0d'
  else if c = 't' then some '\t'
  else none

/--
Reads the digits of a code point in braces up to the closing brace. `room` is
how many characters may still be read, `width` how many of the escape were. The
answer is the character, if the escape stands for one, and the escape's width.
-/
def scanBraced : Nat → Nat → Nat → List Char → Option Char × Nat
  | 0, width, _, _ => (none, width)
  | _ + 1, width, _, [] => (none, width)
  | room + 1, width, point, c :: rest =>
    if c = '}' then (if width < 4 then none else Text.scalar? point, width + 1)
    else
      match Text.hexValue? c with
      | some digit => scanBraced room (width + 1) (16 * point + digit) rest
      | none => (none, width + 1)

/-- Reads a code point of four digits, or two that make a pair; `text` starts behind the `u`. -/
def scanUnits (text : List Char) : Option (Char × Nat) :=
  (Text.hexPrefix? 4 text).bind fun unit =>
    match Text.scalar? unit with
    | some c => some (c, 6)
    | none =>
      match text.drop 4 with
      | '\\' :: 'u' :: rest =>
        (Text.hexPrefix? 4 rest).bind fun low =>
          (Text.pair? unit low).map fun c => (c, 12)
      | _ => none

/-- The character of an escape and the escape's width; `text` starts behind the backslash. -/
def scanEscape (text : List Char) : Except Cause (Char × Nat) :=
  match text with
  | 'u' :: '{' :: rest =>
    match scanBraced 9 3 0 rest with
    | (some c, width) => .ok (c, width)
    | (none, width) => .error (.badCodePoint (String.ofList (('\\' :: text).take width)))
  | 'u' :: rest =>
    match scanUnits rest with
    | some (c, width) => .ok (c, width)
    | none => .error (.badCodePoint (String.ofList (('\\' :: text).take 6)))
  | c :: _ =>
    match escaped? c with
    | some c => .ok (c, 2)
    | none => .error (.badEscape (String.ofList ['\\', c]))
  | [] => .error (.badEscape (String.ofList ['\\']))

/-- The meaning of a quoted text and its width; `text` starts behind the opening quote, which is
`offset` away. -/
def scanQuoted (offset : Nat) (text : List Char) : Step (List Char × Nat) :=
  match text with
  | [] => .error (.unterminated, offset)
  | c :: rest =>
    if c = '\x22' then .ok ([], offset + 1)
    else if isLineEnd c then .error (.unterminated, offset)
    else if c = '\\' then
      match scanEscape rest with
      | .error cause => .error (cause, offset)
      | .ok (meant, width) =>
        (scanQuoted (offset + width) (rest.drop (width - 1))).map fun (meaning, total) =>
          (meant :: meaning, total)
    else (scanQuoted (offset + 1) rest).map fun (meaning, total) => (c :: meaning, total)
termination_by text.length
decreasing_by
  · simp only [List.length_drop, List.length_cons]; omega
  · simp

/-- The text up to three closing quotes and its width with them; `text` starts behind the opening
quotes, which are `offset` away. A backslash in front of three quotes takes their meaning away. -/
def scanBlock (offset : Nat) : List Char → Step (List Char × Nat)
  | [] => .error (.unterminated, offset)
  | '\x22' :: '\x22' :: '\x22' :: _ => .ok ([], offset + 3)
  | '\\' :: '\x22' :: '\x22' :: '\x22' :: rest =>
    (scanBlock (offset + 4) rest).map fun (text, total) =>
      ('\x22' :: '\x22' :: '\x22' :: text, total)
  | c :: rest => (scanBlock (offset + 1) rest).map fun (text, total) => (c :: text, total)

/-- The meaning of a block: its lines without common indentation and without blank lines around
them. -/
def blockMeaning (text : List Char) : String :=
  String.ofList (['\n'].intercalate (Text.trimBlankLines (Text.outdent (Text.lines text))))

/-! ## The scan -/

/-- What a point at the front of a text begins; `rest` is behind the point. -/
def scanPoint (rest : List Char) : Step (Lexeme × Nat) :=
  match rest with
  | '.' :: '.' :: _ => .ok (.mark .spread, 3)
  | '.' :: _ => .error (.twoDots, 0)
  | _ =>
    match rest.takeWhile Decimal.isDigit with
    | [] => .error (.unexpectedCharacter '.', 0)
    | digits => .error (.missingWholePart (String.ofList digits), 0)

/-- The token at the front of a text that starts with no ignored character, and its width. -/
def scanToken (c : Char) (rest : List Char) : Step (Lexeme × Nat) :=
  match mark? c with
  | some mark => .ok (.mark mark, 1)
  | none =>
    if c = '.' then scanPoint rest
    else if c = '\x22' then
      match rest with
      | '\x22' :: '\x22' :: text =>
        (scanBlock 3 text).map fun (text, width) => (.block (blockMeaning text), width)
      | _ => (scanQuoted 1 rest).map fun (text, width) => (.quoted (String.ofList text), width)
    else if Decimal.isDigit c || c = '-' then scanNumber (c :: rest)
    else if isNameStart c then
      let name := c :: rest.takeWhile isNamePart
      .ok (.name (String.ofList name), name.length)
    else if c = '\x27' then .error (.singleQuote, 0)
    else .error (.unexpectedCharacter c, 0)

/-- The scan of a text that begins at a position. -/
def scanFrom (position : Nat) : List Char → Scan
  | [] => ⟨[⟨.finish, position⟩], none⟩
  | c :: rest =>
    if isIgnored c then scanFrom (position + 1) rest
    else if c = '#' then
      let comment := rest.takeWhile fun c => !isLineEnd c
      scanFrom (position + 1 + comment.length) (rest.drop comment.length)
    else
      match scanToken c rest with
      | .error (cause, offset) => ⟨[], some ⟨cause, position + offset⟩⟩
      | .ok (lexeme, width) =>
        let behind := scanFrom (position + width) (rest.drop (width - 1))
        ⟨⟨lexeme, position⟩ :: behind.tokens, behind.fault?⟩
termination_by text => text.length
decreasing_by all_goals simp only [List.length_drop, List.length_cons]; omega

/-- The scan of a text. -/
def scan (text : String) : Scan := scanFrom 0 text.toList

end FederationGraph.Document
