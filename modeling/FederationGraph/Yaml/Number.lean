import FederationGraph.Decimal.Arithmetic
import FederationGraph.Text.Blank
import FederationGraph.Text.Digit
import FederationGraph.Text.Hexadecimal
import FederationGraph.Yaml.Cursor

/-!
# Numbers of a YAML document

A plain scalar is a number if it has the form of one: underscores among the
digits, five bases of integers, and parts of base sixty between colons. What a tag
makes a number need not have that form. It is read more freely: with blanks around
it, with the digits of any script and with a second sign.
-/
namespace FederationGraph.Yaml

/-- The text without its sign, and whether that was a minus. -/
def unsigned : List Char → Bool × List Char
  | '-' :: rest => (true, rest)
  | '+' :: rest => (false, rest)
  | text => (false, text)

/-- What stands between the colons of a text. -/
def colonParts (text : List Char) : List (List Char) := text.splitOn ':'

/-! ## The forms of plain numbers -/

/-- Whether a character is a digit or an underscore. -/
def isDigitOrJoin (c : Char) : Bool := Decimal.isDigit c || c == '_'

/-- Digits with underscores among them, a digit first. -/
def isDigits : List Char → Bool
  | c :: rest => Decimal.isDigit c && rest.all isDigitOrJoin
  | [] => false

/-- Whether a text is a part of a number in base sixty: one digit, or two up to 59. -/
def isSixtieth : List Char → Bool
  | [a] => Decimal.isDigit a
  | [a, b] => '0' ≤ a && a ≤ '5' && Decimal.isDigit b
  | _ => false

/-- Whether digits behind the first character of a base belong to it. -/
def hasBase (mark : Char) (belongs : Char → Bool) (text : List Char) : Bool :=
  match text with
  | '0' :: c :: rest => c == mark && !rest.isEmpty && rest.all fun d => belongs d || d == '_'
  | _ => false

/-- Whether a text without a sign is an integer of base ten, possibly in parts of base sixty. -/
def isDecimalInteger (text : List Char) : Bool :=
  let parts := colonParts text
  let first := parts.headD []
  first == ['0'] && parts.length == 1 ||
    (isDigits first && first.head? != some '0' && parts.tail.all isSixtieth)

/-- Whether a text looks like an integer. -/
def isInteger (text : List Char) : Bool :=
  let body := (unsigned text).2
  hasBase 'b' (fun c => c == '0' || c == '1') body ||
    hasBase 'x' (fun c => (Text.hexValue? c).isSome) body ||
    (body.head? == some '0' && 1 < body.length &&
      body.tail.all fun c => ('0' ≤ c && c ≤ '7') || c == '_') ||
    isDecimalInteger body

/-- Whether a text is nothing, or an exponent with its sign. -/
def isExponent : List Char → Bool
  | [] => true
  | mark :: sign :: digits =>
    (mark == 'e' || mark == 'E') && (sign == '+' || sign == '-') && !digits.isEmpty &&
      digits.all Decimal.isDigit
  | _ => false

/-- Whether a text without a sign is a number with a point. -/
def isPointed (text : List Char) : Bool :=
  let whole := text.takeWhile isDigitOrJoin
  match text.dropWhile isDigitOrJoin with
  | '.' :: behind => isDigits whole && isExponent (behind.dropWhile isDigitOrJoin)
  | _ => false

/-- Whether a text starts with a point and digits. -/
def startsWithPoint : List Char → Bool
  | '.' :: behind =>
    isDigits (behind.takeWhile isDigitOrJoin) && isExponent (behind.dropWhile isDigitOrJoin)
  | _ => false

/-- Whether a text without a sign is a number with a point in parts of base sixty. -/
def isPointedSixtieths (text : List Char) : Bool :=
  let parts := colonParts (text.takeWhile (· != '.'))
  match text.dropWhile (· != '.') with
  | '.' :: fraction =>
    isDigits (parts.headD []) && 1 < parts.length && parts.tail.all isSixtieth &&
      fraction.all isDigitOrJoin
  | _ => false

/-- The names of infinity. -/
def infinityNames : List String := [".inf", ".Inf", ".INF"]

/-- The names of what is not a number. -/
def notANumberNames : List String := [".nan", ".NaN", ".NAN"]

/-- Whether a text looks like a floating point number. -/
def isFloat (text : List Char) : Bool :=
  let body := (unsigned text).2
  isPointed body || startsWithPoint text || isPointedSixtieths body ||
    infinityNames.contains (String.ofList body) || notANumberNames.contains (String.ofList text)

/-! ## Reading -/

/-- The text with ASCII digits and without blanks around it. -/
def numeral (text : List Char) : List Char := Text.trimMargins (text.map Text.asciiDigit)

/-- The characters that may announce a base behind a zero. -/
def baseMarks : List (Nat × Char) := [(2, 'b'), (8, 'o'), (16, 'x')]

/-- The text without what announces its base. -/
def withoutBase (base : Nat) : List Char → List Char
  | '0' :: mark :: rest =>
    if baseMarks.lookup base = some mark.toLower then rest else '0' :: mark :: rest
  | text => text

/-- The number that digits of a base write. -/
def ofBase (base : Nat) (digits : List Char) : Nat :=
  digits.foldl (fun n c => base * n + (Text.hexValue? c).getD 0) 0

/-- The integer that a text writes in a base. In base ten it has a limited number of digits. -/
def integerIn? (base : Nat) (text : List Char) : Option Int :=
  let (negative, body) := unsigned (numeral text)
  let digits := withoutBase base body
  let n : Int := ofBase base digits
  if digits.isEmpty || !digits.all fun c => (Text.hexValue? c).any (· < base) then none
  else if base = 10 && Decimal.mostDigits < digits.length then none
  else some (if negative then -n else n)

/-- The integer that parts of base sixty write. -/
def ofSixtieths (parts : List Int) : Int := parts.foldl (fun n part => 60 * n + part) 0

/-- The integer that a text without underscores and sign writes. -/
def magnitude? (body : List Char) : Option Int :=
  match body with
  | '0' :: 'b' :: digits => integerIn? 2 digits
  | '0' :: 'x' :: digits => integerIn? 16 digits
  | '0' :: _ => integerIn? 8 body
  | _ =>
    if body.contains ':' then ((colonParts body).mapM (integerIn? 10)).map ofSixtieths
    else integerIn? 10 body

/-- The sign and the rest of a number; a number is more than a sign. -/
def splitSign (text : List Char) : Except Fault (Bool × List Char) :=
  if text.isEmpty then .error .noDigits else .ok (unsigned text)

/-- Reads an integer. -/
def readInteger (text : List Char) : Except Fault Int := do
  let (negative, body) ← splitSign (text.filter (· != '_'))
  if body.isEmpty then throw .noDigits
  match magnitude? body with
  | some n => return if negative then -n else n
  | none => throw .impossible

/-- Whether a text without a sign is a decimal: digits on at least one side of a point, and an
exponent behind them. -/
def isDecimal (text : List Char) : Bool :=
  let whole := text.takeWhile Decimal.isDigit
  let behind := text.dropWhile Decimal.isDigit
  let fraction := if behind.head? = some '.' then behind.tail.takeWhile Decimal.isDigit else []
  let last := if behind.head? = some '.' then behind.tail.dropWhile Decimal.isDigit else behind
  let exponent :=
    match last with
    | [] => true
    | mark :: power =>
      let digits := (unsigned power).2
      mark == 'e' && !digits.isEmpty && digits.all Decimal.isDigit
  !(whole.isEmpty && fraction.isEmpty) && exponent

/-- The floating point number that a text in lower case writes. -/
def floatIn? (text : List Char) : Option Binary64 :=
  let (negative, body) := unsigned (numeral text)
  let word := String.ofList body
  if word == "inf" || word == "infinity" then some (.infinite negative)
  else if word == "nan" then some .nan
  else if isDecimal body then some (Binary64.ofUnsigned negative body)
  else none

/-- The sum of parts, the last of which counts `unit` and each of the others sixty times as much
as the one behind it. The parts are given from the last one on. -/
def sumSixtieths (unit : Nat) (sum : Binary64) : List Binary64 → Except Fault Binary64
  | [] => .ok sum
  | part :: rest =>
    match Binary64.ofRatio false unit 1 with
    | .infinite _ => .error .outOfRange
    | factor => sumSixtieths (60 * unit) (sum.add (part.mul factor)) rest

/-- The floating point number that a text without underscores and sign writes. -/
def floatMagnitude (body : List Char) : Except Fault Binary64 :=
  let word := String.ofList body
  if word == ".inf" then .ok (.infinite false)
  else if word == ".nan" then .ok .nan
  else if body.contains ':' then
    match (colonParts body).mapM floatIn? with
    | some parts => sumSixtieths 1 (Binary64.zero false) parts.reverse
    | none => .error .impossible
  else
    match floatIn? body with
    | some x => .ok x
    | none => .error .impossible

/-- Reads a floating point number. -/
def readFloat (text : List Char) : Except Fault Binary64 := do
  let (negative, body) ← splitSign ((text.filter (· != '_')).map Char.toLower)
  let x ← floatMagnitude body
  return if negative then x.neg else x

end FederationGraph.Yaml
