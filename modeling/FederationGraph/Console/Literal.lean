import FederationGraph.Decimal.Digits
import FederationGraph.Text.Hexadecimal

/-!
# Literals

What an action is called with are literals: numbers, texts and bytes between
quotes, three names, an ellipsis, and groups of literals between parentheses or
braces. A number may have a sign, and an imaginary one may be added to a real one.
The members of a set and the keys of a dictionary are no sets or dictionaries.
-/
namespace FederationGraph.Console.Literal

/-! ## Tokens -/

/-- A token of a literal. -/
inductive Token where
  | number (imaginary : Bool)
  | text
  | bytes
  | constant
  /-- The name of the empty set, behind which a pair of parentheses comes. -/
  | setName
  | mark (c : Char)
  deriving DecidableEq, Repr

/-- Whether a character may be part of a name. -/
def isWordChar (c : Char) : Bool := c.isAlphanum || c == '_' || 0x80 ≤ c.toNat

/-- Whether a text begins like a name or goes on with one. -/
def goesOn (text : List Char) : Bool := text.head?.any isWordChar

/-- Digits with single underscores in front of them, and what follows. -/
def digitRun (belongs : Char → Bool) : List Char → List Char × List Char
  | '_' :: c :: rest =>
    if belongs c then
      let (digits, behind) := digitRun belongs rest
      (c :: digits, behind)
    else ([], '_' :: c :: rest)
  | c :: rest =>
    if belongs c then
      let (digits, behind) := digitRun belongs rest
      (c :: digits, behind)
    else ([], c :: rest)
  | [] => ([], [])

/-- Decimal digits, the first one without an underscore, and what follows. -/
def decimalRun (text : List Char) : List Char × List Char :=
  if text.head?.any Decimal.isDigit then digitRun Decimal.isDigit text else ([], text)

/-- The base that a character behind a zero announces. -/
def baseOf? (mark : Char) : Option Nat := [('b', 2), ('o', 8), ('x', 16)].lookup mark.toLower

/-- What follows an exponent, if one stands at the front of a text. -/
def exponentRest? (text : List Char) : Option (List Char) :=
  match text with
  | mark :: rest =>
    let unsigned := if rest.head? = some '+' || rest.head? = some '-' then rest.tail else rest
    if (mark == 'e' || mark == 'E') && unsigned.head?.any Decimal.isDigit then
      some (decimalRun unsigned).2
    else none
  | [] => none

/-- Whether digits may stand alone: no zero in front of another digit, and not too many. -/
def isWhole (digits : List Char) : Bool :=
  (digits.head? != some '0' || digits.all (· == '0')) && digits.length ≤ Decimal.mostDigits

/-- A decimal number, whether it is imaginary, and what follows. -/
def decimal? (text : List Char) : Option (Bool × List Char) :=
  let (whole, behind) := decimalRun text
  let pointed := behind.head? = some '.'
  let (fraction, behind) := if pointed then decimalRun behind.tail else ([], behind)
  let raised := exponentRest? behind
  let behind := raised.getD behind
  let imaginary := behind.head? = some 'j' || behind.head? = some 'J'
  let behind := if imaginary then behind.tail else behind
  if (whole.isEmpty && fraction.isEmpty) || goesOn behind then none
  else if pointed || raised.isSome || imaginary || isWhole whole then some (imaginary, behind)
  else none

/-- A number, whether it is imaginary, and what follows. -/
def number? (text : List Char) : Option (Bool × List Char) :=
  match text with
  | '0' :: mark :: rest =>
    match baseOf? mark with
    | some base =>
      let (digits, behind) := digitRun (fun c => (Text.hexValue? c).any (· < base)) rest
      if digits.isEmpty || goesOn behind then none else some (false, behind)
    | none => decimal? text
  | _ => decimal? text

/-- One more than the greatest code point. -/
def codePointEnd : Nat := 0x110000

/-- Whether what follows a backslash and a character completes an escape. -/
def completes (isBytes : Bool) (c : Char) (behind : List Char) : Bool :=
  if c = 'x' then (Text.hexPrefix? 2 behind).isSome
  else if isBytes then true
  else if c = 'u' then (Text.hexPrefix? 4 behind).isSome
  else if c = 'U' then (Text.hexPrefix? 8 behind).any (· < codePointEnd)
  else c != 'N'

/-- What follows the rest of a quoted text. A long one ends at three quotes and may have several
lines; a raw one has no escapes; bytes are ASCII. -/
def quotedRest? (isBytes raw long : Bool) (quote : Char) : List Char → Option (List Char)
  | [] => none
  | '\\' :: c :: rest =>
    if (isBytes && 0x80 ≤ c.toNat) || !(raw || completes isBytes c rest) then none
    else quotedRest? isBytes raw long quote rest
  | c :: rest =>
    if c = quote then
      if !long then some rest
      else if rest.take 2 = [quote, quote] then some (rest.drop 2)
      else quotedRest? isBytes raw long quote rest
    else if (c = '\n' || c = '\x0d') && !long then none
    else if isBytes && 0x80 ≤ c.toNat then none
    else quotedRest? isBytes raw long quote rest

/-- The letters that may stand in front of a quoted text, in lower case. -/
def quoteMarks : List String := ["", "r", "u", "b", "br", "rb"]

/-- A quoted text or quoted bytes, and what follows. -/
def quoted? (text : List Char) : Option (Token × List Char) :=
  let letters := text.takeWhile Char.isAlpha
  let mark := (String.ofList letters).toLower
  match text.drop letters.length with
  | quote :: rest =>
    if (quote = '\x22' || quote = '\x27') && quoteMarks.contains mark then
      let isBytes := mark.toList.contains 'b'
      let long := rest.take 2 = [quote, quote]
      let behind := if long then rest.drop 2 else rest
      (quotedRest? isBytes (mark.toList.contains 'r') long quote behind).map fun behind =>
        (if isBytes then .bytes else .text, behind)
    else none
  | [] => none

/-- The names that stand for values. -/
def constantNames : List String := ["True", "False", "None"]

/-- A name and what follows. -/
def name? (text : List Char) : Option (Token × List Char) :=
  let word := text.takeWhile isWordChar
  let behind := text.drop word.length
  if constantNames.contains (String.ofList word) then some (.constant, behind)
  else if String.ofList word = "set" then some (.setName, behind)
  else if text.take 3 = ['.', '.', '.'] then some (.constant, text.drop 3)
  else none

/-- How deep groups may be nested. -/
def deepest : Nat := 200

/-- The tokens of a text that stands in a number of open groups. -/
def tokens? : Nat → Nat → List Char → Option (List Token)
  | 0, _, _ => none
  | _ + 1, _, [] => some []
  | fuel + 1, depth, c :: rest =>
    if c = ' ' || c = '\t' || c = '\x0c' then tokens? fuel depth rest
    else if c = '\n' || c = '\x0d' then if depth = 0 then none else tokens? fuel depth rest
    else if c = '#' then tokens? fuel depth (rest.dropWhile fun c => c != '\n' && c != '\x0d')
    else if c = '(' || c = '{' then
      if depth = deepest then none else (tokens? fuel (depth + 1) rest).map (.mark c :: ·)
    else if c = ')' || c = '}' then (tokens? fuel (depth - 1) rest).map (.mark c :: ·)
    else if [',', ':', '+', '-'].contains c then (tokens? fuel depth rest).map (.mark c :: ·)
    else
      match number? (c :: rest) with
      | some (imaginary, behind) => (tokens? fuel depth behind).map (.number imaginary :: ·)
      | none =>
        match (quoted? (c :: rest)).orElse fun _ => name? (c :: rest) with
        | some (token, behind) => (tokens? fuel depth behind).map (token :: ·)
        | none => none

/-! ## Values -/

/-- What matters about a literal. -/
inductive Shape where
  /-- A real number without a sign. -/
  | real
  /-- An imaginary number without a sign. -/
  | imaginary
  /-- A real number with a sign. -/
  | signed
  /-- Any other literal that may be a key. -/
  | plain
  /-- A literal that may not be a key. -/
  | container
  deriving DecidableEq, Repr

/-- The shape of several literals together. -/
def together (shapes : List Shape) : Shape :=
  if shapes.contains .container then .container else .plain

/-- The tokens behind a mark. -/
def behindMark? (c : Char) : List Token → Option (List Token)
  | token :: rest => if token = .mark c then some rest else none
  | [] => none

/-- Whether a sign comes next. -/
def signNext (tokens : List Token) : Bool :=
  tokens.head? = some (.mark '+') || tokens.head? = some (.mark '-')

mutual
/-- A literal without a sign in front of it. -/
def readAtom : Nat → List Token → Option (Shape × List Token)
  | 0, _ => none
  | fuel + 1, tokens =>
    match tokens with
    | .number imaginary :: rest => some (if imaginary then .imaginary else .real, rest)
    | .text :: rest => some (.plain, rest.dropWhile (· = .text))
    | .bytes :: rest => some (.plain, rest.dropWhile (· = .bytes))
    | .constant :: rest => some (.plain, rest)
    | .setName :: .mark '(' :: .mark ')' :: rest => some (.container, rest)
    | .mark '(' :: .mark ')' :: rest => some (.plain, rest)
    | .mark '(' :: rest => do
      let ((shapes, trailing), rest) ← readItems fuel rest
      let rest ← behindMark? ')' rest
      match shapes, trailing with
      | [shape], false => some (shape, rest)
      | _, _ => some (together shapes, rest)
    | .mark '{' :: .mark '}' :: rest => some (.container, rest)
    | .mark '{' :: rest => do
      let (shape, behind) ← readItem fuel rest
      if shape = .container then none
      let behind ← (
        if behind.head? = some (.mark ':') then readEntries fuel rest
        else do
          let ((shapes, _), behind) ← readItems fuel rest
          if shapes.contains .container then none else some behind)
      some (.container, ← behindMark? '}' behind)
    | _ => none

/-- A literal. -/
def readItem : Nat → List Token → Option (Shape × List Token)
  | 0, _ => none
  | fuel + 1, tokens => do
    let (shape, rest) ← (
      if signNext tokens then do
        match ← readAtom fuel tokens.tail with
        | (.real, rest) => some (Shape.signed, rest)
        | (.imaginary, rest) => some (Shape.plain, rest)
        | _ => none
      else readAtom fuel tokens)
    if signNext rest && (shape = .real || shape = .signed) then
      match ← readAtom fuel rest.tail with
      | (.imaginary, rest) => some (.plain, rest)
      | _ => none
    else some (shape, rest)

/-- Literals with commas between them, and whether a comma comes last. -/
def readItems : Nat → List Token → Option ((List Shape × Bool) × List Token)
  | 0, _ => none
  | fuel + 1, tokens => do
    let (shape, rest) ← readItem fuel tokens
    match behindMark? ',' rest with
    | none => some (([shape], false), rest)
    | some rest =>
      if [some (.mark ')'), some (.mark '}'), none].contains rest.head? then
        some (([shape], true), rest)
      else
        let ((shapes, trailing), rest) ← readItems fuel rest
        some ((shape :: shapes, trailing), rest)

/-- The tokens behind the keys and values of a dictionary. -/
def readEntries : Nat → List Token → Option (List Token)
  | 0, _ => none
  | fuel + 1, tokens => do
    let (key, rest) ← readItem fuel tokens
    if key = .container then none
    let (_, rest) ← readItem fuel (← behindMark? ':' rest)
    match behindMark? ',' rest with
    | none => some rest
    | some rest =>
      if rest.head? = some (.mark '}') then some rest else readEntries fuel rest
end

/-- Whether a text is a literal, or several with commas between them. -/
def isLiteral (text : List Char) : Bool :=
  if text.contains '\x00' then false
  else
    match tokens? (text.length + 1) 0 text with
    | none => false
    | some tokens =>
      match readItems (4 * tokens.length + 4) tokens with
      | some (_, rest) => rest.isEmpty
      | none => false

end FederationGraph.Console.Literal
