import FederationGraph.Reading.Basic
import FederationGraph.Text.Blank
import FederationGraph.Time.Instant

/-!
# Reading scalars

Texts are texts. Booleans are also read from zero and one and from a few words;
integers also from booleans, from numbers without a fraction and from texts;
instants from texts and from the seconds since 1970. A value of the wrong shape
and a value that cannot be read are different problems.
-/
namespace FederationGraph.Reading

/-- A text. -/
def text : Value → Reading String
  | .text s => .done s
  | _ => refuse .stringType

/-! ## Booleans -/

/-- The words for `false`. -/
def falseWords : List String := ["0", "off", "f", "false", "n", "no"]

/-- The words for `true`. -/
def trueWords : List String := ["1", "on", "t", "true", "y", "yes"]

/-- The boolean that an integer stands for. -/
def booleanOfInteger (n : Int) : Reading Bool :=
  if n = 0 then .done false else if n = 1 then .done true else refuse .boolParsing

/-- One more than the greatest integer of 64 bits with a sign. -/
def wordBound : Nat := Nat.pow 2 63

/-- Whether an integer has room in 64 bits with a sign. -/
def isWord (n : Int) : Bool := -(wordBound : Int) ≤ n && n < wordBound

/-- A boolean. -/
def boolean : Value → Reading Bool
  | .boolean b => .done b
  | .integer n => if isWord n then booleanOfInteger n else refuse .boolType
  | .float (.finite x) =>
    match x.toInt? with
    | some n => if n.natAbs < wordBound then booleanOfInteger n else refuse .boolType
    | none => refuse .boolType
  | .text s =>
    let word := s.map Char.toLower
    if falseWords.contains word then .done false
    else if trueWords.contains word then .done true
    else refuse .boolParsing
  | _ => refuse .boolType

/-! ## Integers -/

/-- The text behind zeros and underscores of which `last` is the last one read. A sign or another
digit begins the number; the zero in front of a point belongs to it. -/
def behindZeros (last : Char) : List Char → Option (List Char)
  | [] => some [last]
  | c :: rest =>
    if c = '0' || c = '_' then behindZeros c rest
    else if c = '.' then some (last :: c :: rest)
    else if Decimal.isDigit c || c = '-' then some (c :: rest)
    else none

/-- The text without zeros in front of it, if it begins like a number. -/
def withoutZeros? : List Char → Option (List Char)
  | [] => none
  | c :: rest =>
    if c = '0' then behindZeros c rest
    else if Decimal.isDigit c || c = '-' then some (c :: rest)
    else none

/-- The text without a plus sign in front of it, unless a minus sign follows. -/
def withoutPlus? : List Char → Option (List Char)
  | '+' :: '-' :: _ => none
  | '+' :: rest => some rest
  | text => some text

/-- The text without a fraction of zeros. -/
def withoutZeroFraction (s : List Char) : List Char :=
  if (s.dropWhile (· != '.')).tail.all (· == '0') then s.takeWhile (· != '.') else s

/-- Whether two underscores follow each other. -/
def hasGap : List Char → Bool
  | '_' :: '_' :: _ => true
  | _ :: rest => hasGap rest
  | [] => false

/-- The text without its underscores, if each of them stands alone and none at an end. -/
def withoutUnderscores (s : List Char) : List Char :=
  if s.head? = some '_' || s.getLast? = some '_' || hasGap s then s else s.filter (· != '_')

/-- The plain decimal that a text without blanks around it stands for. -/
def plainDecimal? (s : List Char) : Option (List Char) :=
  ((withoutPlus? s).bind withoutZeros?).map fun s => withoutUnderscores (withoutZeroFraction s)

/-- Whether a text is digits with no zero in front of others. -/
def isPlain : List Char → Bool
  | [] => false
  | '0' :: rest => rest.isEmpty
  | digits => digits.all Decimal.isDigit

/-- The integer that a plain decimal writes. Its sign counts as a digit. -/
def integerOfDecimal (s : List Char) : Reading Int :=
  let negative := s.head? == some '-'
  let digits := if negative then s.tail else s
  let length := (digits.takeWhile Decimal.isDigit).length + negative.toNat
  let n : Int := Decimal.ofDigits digits
  if Decimal.mostDigits < length && digits.head? != some '0' then refuse .intParsingSize
  else if isPlain digits then .done (if negative then -n else n)
  else refuse .intParsing

/-- An integer. -/
def integer : Value → Reading Int
  | .integer n => .done n
  | .boolean b => .done (if b then 1 else 0)
  | .float (.finite x) =>
    match x.toInt? with
    | some n => if n.natAbs < wordBound then .done n else refuse .intParsingSize
    | none => refuse .intFromFloat
  | .float _ => refuse .finiteNumber
  | .text s =>
    match plainDecimal? (Text.trimMargins s.toList) with
    | some digits => integerOfDecimal digits
    | none => refuse .intParsing
  | _ => refuse .intType

/-! ## Instants -/

/-- The instant that was read. No instant of the year 0 is one. -/
def readInstant (problem : ProblemKind) : Option Instant → Reading Instant
  | some t => if t.year = 0 then refuse .datetimeParsing else .done t
  | none => refuse problem

/-- An instant. -/
def instant : Value → Reading Instant
  | .text s => readInstant .datetimeFromDateParsing (Instant.parse? s)
  | .integer n =>
    if isWord n then readInstant .datetimeParsing (Instant.ofInteger? n) else refuse .datetimeType
  | .float (.finite x) => readInstant .datetimeParsing (Instant.ofFloat? x)
  | .float _ => refuse .datetimeParsing
  | _ => refuse .datetimeType

end FederationGraph.Reading
