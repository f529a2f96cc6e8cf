import FederationGraph.Time.Instant
import FederationGraph.Yaml.Cursor

/-!
# Timestamps of a YAML document

A timestamp is a day, possibly with a time of day and a distance from universal
time behind it. Hours may have one digit, and so may months and days; a plain
scalar is a lone day only if they have two. A line feed at the end does not count.
-/
namespace FederationGraph.Yaml

/-- The text without a line feed at its end. -/
def withoutLastBreak (text : List Char) : List Char :=
  if text.getLast? = some '\n' then text.dropLast else text

/-- A timestamp: the numbers of a day, and those of a time of day and the distance from universal
time in seconds if they are given. -/
structure Timestamp where
  year : Nat
  month : Nat
  day : Nat
  time : Option (Nat × Nat × Nat × Nat × Option Int)
  deriving DecidableEq, Repr

/-- One digit or two, and what follows. -/
def shortNumber (text : List Char) : Option (Nat × List Char) :=
  let digits := (text.take 2).takeWhile Decimal.isDigit
  if digits.isEmpty then none else some (Decimal.ofDigits digits, text.drop digits.length)

/-- The distance from universal time at the end of a timestamp. -/
def readZone (text : List Char) : Option (Option Int) :=
  match text.dropWhile fun c => c == ' ' || c == '\t' with
  | [] => if text.isEmpty then some none else none
  | ['Z'] => some (some 0)
  | sign :: rest =>
    if sign == '+' || sign == '-' then do
      let (hours, rest) ← shortNumber rest
      let minutes ←
        match rest with
        | [] => some 0
        | ':' :: digits =>
          if digits.length == 2 then (Instant.readNumber 2 digits).map Prod.fst else none
        | _ => none
      let seconds : Int := hours * 3600 + minutes * 60
      some (some (if sign == '-' then -seconds else seconds))
    else none

/-- The time of day of a timestamp, behind the day. -/
def readTimeOfDay (text : List Char) : Option (Nat × Nat × Nat × Nat × Option Int) := do
  let isBlank (c : Char) : Bool := c == ' ' || c == '\t'
  let behind ←
    match text with
    | c :: rest =>
      if c == 'T' || c == 't' then some rest
      else if isBlank c then some (rest.dropWhile isBlank)
      else none
    | [] => none
  let (hour, rest) ← shortNumber behind
  let rest ← Instant.readChar ':' rest
  let (minute, rest) ← Instant.readNumber 2 rest
  let rest ← Instant.readChar ':' rest
  let (second, rest) ← Instant.readNumber 2 rest
  let fraction := if rest.head? == some '.' then rest.tail.takeWhile Decimal.isDigit else []
  let rest := if rest.head? == some '.' then rest.tail.dropWhile Decimal.isDigit else rest
  let zone ← readZone rest
  let micros := Decimal.ofDigits ((fraction ++ List.replicate 6 '0').take 6)
  some (hour, minute, second, micros, zone)

/-- The year, the month and the day at the front of a text, and what follows. -/
def readDay (text : List Char) : Option ((Nat × Nat × Nat) × List Char) := do
  let (year, rest) ← Instant.readNumber 4 text
  let rest ← Instant.readChar '-' rest
  let (month, rest) ← shortNumber rest
  let rest ← Instant.readChar '-' rest
  let (day, rest) ← shortNumber rest
  some ((year, month, day), rest)

/-- The timestamp that a text writes; the numbers need not make up a day. -/
def timestamp? (text : List Char) : Option Timestamp := do
  let ((year, month, day), rest) ← readDay (withoutLastBreak text)
  if rest.isEmpty then some ⟨year, month, day, none⟩
  else some ⟨year, month, day, ← readTimeOfDay rest⟩

/-- The number of characters of a lone day in a plain scalar. -/
def dayWidth : Nat := 10

/-- Whether a text without a line feed at its end looks like a timestamp. -/
def isTimestamp (text : List Char) : Bool :=
  match timestamp? text with
  | some t => t.time.isSome || text.length == dayWidth
  | none => false

/-- Whether the numbers of a timestamp make up a day and a time of day. -/
def Timestamp.isPossible (t : Timestamp) : Bool :=
  1 ≤ t.year && 1 ≤ t.month && t.month ≤ 12 && 1 ≤ t.day && t.day ≤ Instant.daysIn t.year t.month &&
    t.time.all fun (hour, minute, second, _, zone) =>
      hour ≤ 23 && minute ≤ 59 && second ≤ 59 && zone.all fun seconds => seconds.natAbs < 86400

/-- Reads a timestamp. -/
def readTimestamp (text : List Char) : Except Fault Timestamp :=
  match timestamp? text with
  | none => .error .noTimestamp
  | some t => if t.isPossible then .ok t else .error .impossible

end FederationGraph.Yaml
