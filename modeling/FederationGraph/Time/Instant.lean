import FederationGraph.Decimal.Binary64

/-!
# Instants

A date and a time of day with microseconds, and the distance from universal time
if it is known. Instants are written in the usual extended format, the fraction
only when there is one. They are read from that format, from a date alone, and
from the seconds since 1970, or the milliseconds if the number is large.
-/
namespace FederationGraph

/-- A date and a time of day; `offset` counts the seconds by which it is ahead of universal
time. -/
structure Instant where
  year : Nat
  month : Nat
  day : Nat
  hour : Nat
  minute : Nat
  second : Nat
  microsecond : Nat
  offset : Option Int
  deriving DecidableEq, Repr, Inhabited

namespace Instant

/-! ## Writing -/

/-- Hours and minutes with a colon between them, and seconds if there are any. -/
def offsetDigits (seconds : Nat) : List Char :=
  let minutes := Decimal.padded 2 (seconds / 3600) ++ ':' :: Decimal.padded 2 (seconds / 60 % 60)
  if seconds % 60 = 0 then minutes else minutes ++ ':' :: Decimal.padded 2 (seconds % 60)

/-- The distance from universal time behind its sign; nothing if it is unknown. -/
def offsetText : Option Int → List Char
  | none => []
  | some seconds => (if seconds < 0 then '-' else '+') :: offsetDigits seconds.natAbs

/-- The distance from universal time, with a letter for none. -/
def zoneText (offset : Option Int) : List Char :=
  if offset = some 0 then ['Z'] else offsetText offset

/-- The date and the time of day without a fraction. -/
def secondsText (t : Instant) : List Char :=
  Decimal.padded 4 t.year ++ '-' :: Decimal.padded 2 t.month ++ '-' :: Decimal.padded 2 t.day ++
    'T' :: Decimal.padded 2 t.hour ++ ':' :: Decimal.padded 2 t.minute ++
    ':' :: Decimal.padded 2 t.second

/-- The fraction of a second, if there is one. -/
def fractionText (t : Instant) : List Char :=
  if t.microsecond = 0 then [] else '.' :: Decimal.padded 6 t.microsecond

/-- The instant with its distance from universal time in digits. -/
def text (t : Instant) : String :=
  String.ofList (t.secondsText ++ t.fractionText ++ offsetText t.offset)

/-- The instant with a letter for universal time. -/
def zonedText (t : Instant) : String :=
  String.ofList (t.secondsText ++ t.fractionText ++ zoneText t.offset)

/-- The instant without the fraction of a second. -/
def wholeText (t : Instant) : String := String.ofList (t.secondsText ++ offsetText t.offset)

/-! ## Counting seconds -/

/-- The days from the first of March of the year 0 to that of a year, and to a day after it. -/
def dayNumber (year month day : Nat) : Int :=
  let y : Int := if month ≤ 2 then (year : Int) - 1 else year
  let m : Int := if month ≤ 2 then (month : Int) + 9 else (month : Int) - 3
  365 * y + y.fdiv 4 - y.fdiv 100 + y.fdiv 400 + (153 * m + 2).fdiv 5 + day - 1

/-- The number of the first day of 1970. -/
def epochDay : Int := dayNumber 1970 1 1

/-- The seconds from the start of 1970 in universal time. -/
def toSeconds (t : Instant) : Int :=
  (dayNumber t.year t.month t.day - epochDay) * 86400 + (t.hour * 3600 + t.minute * 60 + t.second) -
    t.offset.getD 0

/-- The instant in universal time at a number of seconds from the start of 1970. -/
def ofSeconds (seconds : Int) (microsecond : Nat) : Instant :=
  let z := seconds.fdiv 86400 + epochDay
  let time := (seconds.fmod 86400).toNat
  let era := z.fdiv 146097
  let dayOfEra := (z - era * 146097).toNat
  let yearOfEra :=
    (dayOfEra - dayOfEra / 1460 + dayOfEra / 36524 - dayOfEra / 146096) / 365
  let dayOfYear := dayOfEra - (365 * yearOfEra + yearOfEra / 4 - yearOfEra / 100)
  let shifted := (5 * dayOfYear + 2) / 153
  let month := if shifted < 10 then shifted + 3 else shifted - 9
  let year := (yearOfEra : Int) + era * 400 + (if month ≤ 2 then 1 else 0)
  { year := year.toNat
    month
    day := dayOfYear - (153 * shifted + 2) / 5 + 1
    hour := time / 3600
    minute := time / 60 % 60
    second := time % 60
    microsecond
    offset := some 0 }

/-- The instant one second later, in universal time. -/
def next (t : Instant) : Instant := ofSeconds (t.toSeconds + 1) t.microsecond

/-! ## Reading -/

/-- The number of days of a month. -/
def daysIn (year month : Nat) : Nat :=
  if month = 2 then
    if year % 4 = 0 ∧ (year % 100 ≠ 0 ∨ year % 400 = 0) then 29 else 28
  else if month = 4 ∨ month = 6 ∨ month = 9 ∨ month = 11 then 30
  else 31

/-- The number that the first `width` characters write, if they are digits, and what follows. -/
def readNumber (width : Nat) (text : List Char) : Option (Nat × List Char) :=
  let digits := text.take width
  if digits.length = width && digits.all Decimal.isDigit then
    some (Decimal.ofDigits digits, text.drop width)
  else none

/-- What follows a character that has to come first. -/
def readChar (c : Char) : List Char → Option (List Char)
  | d :: rest => if d = c then some rest else none
  | [] => none

/-- A date and what follows it. -/
def readDate (text : List Char) : Option ((Nat × Nat × Nat) × List Char) := do
  let (year, text) ← readNumber 4 text
  let text ← readChar '-' text
  let (month, text) ← readNumber 2 text
  let text ← readChar '-' text
  let (day, text) ← readNumber 2 text
  if 1 ≤ month ∧ month ≤ 12 ∧ 1 ≤ day ∧ day ≤ daysIn year month then
    some ((year, month, day), text)
  else none

/-- The microseconds of a fraction; digits behind the sixth are left out. -/
def readFraction : List Char → Option (Nat × List Char)
  | c :: rest =>
    if c = '.' || c = ',' then
      let digits := rest.takeWhile Decimal.isDigit
      if digits.isEmpty then none
      else
        let six := (digits ++ List.replicate 6 '0').take 6
        some (Decimal.ofDigits six, rest.drop digits.length)
    else some (0, c :: rest)
  | [] => some (0, [])

/-- The seconds and microseconds behind hours and minutes, both zero if they are left out. -/
def readSeconds : List Char → Option ((Nat × Nat) × List Char)
  | ':' :: rest => do
    let (second, rest) ← readNumber 2 rest
    let (microsecond, rest) ← readFraction rest
    some ((second, microsecond), rest)
  | text => some ((0, 0), text)

/-- A time of day and what follows it. -/
def readTime (text : List Char) : Option ((Nat × Nat × Nat × Nat) × List Char) := do
  let (hour, text) ← readNumber 2 text
  let text ← readChar ':' text
  let (minute, text) ← readNumber 2 text
  let ((second, microsecond), text) ← readSeconds text
  if hour ≤ 23 ∧ minute ≤ 59 ∧ second ≤ 59 then some ((hour, minute, second, microsecond), text)
  else none

/-- The seconds of hours and minutes, with or without a colon between them. -/
def readOffset (text : List Char) : Option Int := do
  let (hour, text) ← readNumber 2 text
  let (minute, text) ← readNumber 2 ((readChar ':' text).getD text)
  if text.isEmpty ∧ hour ≤ 23 ∧ minute ≤ 59 then some ((hour * 3600 + minute * 60 : Nat) : Int)
  else none

/-- The distance from universal time at the end of a text. -/
def readZone : List Char → Option (Option Int)
  | [] => some none
  | ['Z'] => some (some 0)
  | ['z'] => some (some 0)
  | '+' :: text => (readOffset text).map some
  | '-' :: text => (readOffset text).map fun seconds => some (-seconds)
  | '\u2212' :: text => (readOffset text).map fun seconds => some (-seconds)
  | _ => none

/-- Whether a character may stand between the date and the time of day. -/
def isDateEnd (c : Char) : Bool := c == 'T' || c == 't' || c == ' ' || c == '_'

/-- An instant with a time of day, or the start of a day. -/
def readCalendar (text : List Char) : Option Instant := do
  let ((year, month, day), text) ← readDate text
  match text with
  | [] => some ⟨year, month, day, 0, 0, 0, 0, none⟩
  | c :: text =>
    if isDateEnd c then
      let ((hour, minute, second, microsecond), text) ← readTime text
      let offset ← readZone text
      some ⟨year, month, day, hour, minute, second, microsecond, offset⟩
    else none

/-- A number beyond this one counts milliseconds. -/
def millisecondsFrom : Nat := 20000000000

/-- The first second of the year 0. -/
def firstSecond : Int := -62167219200

/-- The last second of 9999. -/
def lastSecond : Int := 253402300799

/-- The instant a number of seconds and microseconds after the start of 1970, if it is in range. -/
def ofParts? (seconds : Int) (microsecond : Nat) : Option Instant :=
  let whole := seconds + (microsecond / 1000000 : Nat)
  if firstSecond ≤ whole ∧ whole ≤ lastSecond then
    some (ofSeconds whole (microsecond % 1000000))
  else none

/-- The instant that an integer and further microseconds stand for. -/
def ofWhole? (n : Int) (microsecond : Nat) : Option Instant :=
  if millisecondsFrom < n.natAbs then
    ofParts? (n.fdiv 1000) ((n.fmod 1000).toNat * 1000 + microsecond)
  else ofParts? n microsecond

/-- The instant that an integer stands for. -/
def ofInteger? (n : Int) : Option Instant := ofWhole? n 0

/-- The microseconds of a fraction of a second. The fraction and its product are binary64 numbers
themselves; a half goes up. -/
def microsecondsOf (numerator denominator : Nat) : Nat :=
  match Binary64.ofRatio false numerator denominator with
  | .finite fraction =>
    let (numerator, denominator) := fraction.ratio
    match Binary64.ofRatio false (numerator * 1000000) denominator with
    | .finite product =>
      let (numerator, denominator) := product.ratio
      (2 * numerator + denominator) / (2 * denominator)
    | _ => 0
  | _ => 0

/-- The instant a number of seconds after the start of 1970: the whole second below it and the
microseconds from there. -/
def ofFraction? (x : Binary64.Finite) : Option Instant :=
  let (numerator, denominator) := x.ratio
  let whole : Int := numerator / denominator
  let rest := numerator % denominator
  if !x.negative then ofWhole? whole (microsecondsOf rest denominator)
  else if rest = 0 then ofWhole? (-whole) 0
  else ofWhole? (-whole - 1) (microsecondsOf (denominator - rest) denominator)

/-- The instant that a binary64 number stands for. -/
def ofFloat? (x : Binary64.Finite) : Option Instant :=
  let (numerator, denominator) := x.ratio
  if millisecondsFrom * denominator < numerator then
    match Binary64.ofRatio x.negative numerator (denominator * 1000) with
    | .finite seconds => ofFraction? seconds
    | _ => none
  else ofFraction? x

/-- The instant that an integer or a decimal fraction stands for. Digits may be missing on one
side of the point. -/
def readNumeric (text : List Char) : Option Instant :=
  let negative := text.head? = some '-'
  let body := if negative || text.head? = some '+' then text.tail else text
  let whole := body.takeWhile Decimal.isDigit
  let behind := body.dropWhile Decimal.isDigit
  let fraction := behind.tail
  let n : Int := Decimal.ofDigits whole
  if !whole.isEmpty && behind.isEmpty then
    ofInteger? (if negative then -n else n)
  else if behind.head? = some '.' && fraction.all Decimal.isDigit &&
      !(whole.isEmpty && fraction.isEmpty) then
    match Binary64.ofUnsigned negative body with
    | .finite x => ofFloat? x
    | _ => none
  else none

/-- Reads an instant: from the calendar, or else as a number. -/
def parse? (text : String) : Option Instant :=
  (readCalendar text.toList).orElse fun _ => readNumeric text.toList

end Instant

end FederationGraph
