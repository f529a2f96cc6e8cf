import FederationGraph.Decimal.Binary64
import FederationGraph.Text.Hexadecimal
import FederationGraph.Value

/-!
# Reading JSON

A reader takes a value off the front of a text and returns it with the rest. It
accepts the JSON grammar and, beside it, the names `NaN`, `Infinity` and
`-Infinity`. A number with neither fraction nor exponent is an integer.

Integers of too many digits are refused, and so are lists and objects that are
nested too deeply. What holds for stored values is stricter than what holds for
others: there the whole part of any number counts with its sign, and lists and
objects are nested 200 deep at most.
-/
namespace FederationGraph.Json

open Text

/-- Why a text is not read. -/
inductive Refusal where
  | malformed
  | tooManyDigits
  | tooDeep
  deriving DecidableEq, Repr, Inhabited

/-- What was expected, or else a malformed text. -/
def orMalformed {α : Type} : Option α → Except Refusal α
  | some a => .ok a
  | none => .error .malformed

/-- The characters allowed between the parts of a document. -/
def isSpace (c : Char) : Bool := c == ' ' || c == '\t' || c == '\n' || c == '\x0d'

/-- The text behind leading space. -/
def skipSpace (text : List Char) : List Char := text.dropWhile isSpace

/-- The character a short escape stands for. -/
def escaped? (c : Char) : Option Char :=
  if c = '\x22' || c = '\\' || c = '/' then some c
  else if c = 'b' then some '\x08'
  else if c = 'f' then some '\x0c'
  else if c = 'n' then some '\n'
  else if c = 'r' then some '\x0d'
  else if c = 't' then some '\t'
  else none

/-- The character of an escape and the text behind it; the escape's backslash is already read. -/
def readEscape : List Char → Option (Char × List Char)
  | 'u' :: rest =>
    (hexPrefix? 4 rest).bind fun unit =>
      match rest.drop 4 with
      | '\\' :: 'u' :: behind =>
        if isHighUnit unit then
          (hexPrefix? 4 behind).bind fun low =>
            (pair? unit low).map fun c => (c, behind.drop 4)
        else (scalar? unit).map fun c => (c, rest.drop 4)
      | _ => (scalar? unit).map fun c => (c, rest.drop 4)
  | c :: rest => (escaped? c).map fun c => (c, rest)
  | [] => none

/-- An escape takes something off the text. -/
theorem length_lt_of_readEscape {text rest : List Char} {c : Char}
    (h : readEscape text = some (c, rest)) : rest.length < text.length := by
  unfold readEscape at h
  split at h
  · rename_i tail
    obtain ⟨unit, -, h⟩ := Option.bind_eq_some_iff.1 h
    split at h
    · rename_i behind hbehind
      have hlen := congrArg List.length hbehind
      simp only [List.length_drop, List.length_cons] at hlen
      split at h
      · obtain ⟨low, -, h⟩ := Option.bind_eq_some_iff.1 h
        obtain ⟨c, -, h⟩ := Option.map_eq_some_iff.1 h
        cases h
        simp only [List.length_drop, List.length_cons]
        omega
      · obtain ⟨c, -, h⟩ := Option.map_eq_some_iff.1 h
        cases h
        simp only [List.length_drop, List.length_cons]
        omega
    · obtain ⟨c, -, h⟩ := Option.map_eq_some_iff.1 h
      cases h
      simp only [List.length_drop, List.length_cons]
      omega
  · obtain ⟨c, -, h⟩ := Option.map_eq_some_iff.1 h
    cases h
    simp
  · simp at h

/-- The rest of a quoted text up to its closing quote, and what follows. -/
def readQuoted : List Char → Option (List Char × List Char)
  | [] => none
  | c :: rest =>
    if c = '\x22' then some ([], rest)
    else if c = '\\' then
      match h : readEscape rest with
      | some (c, behind) =>
        have := length_lt_of_readEscape h
        (readQuoted behind).map fun (text, tail) => (c :: text, tail)
      | none => none
    else if c < ' ' then none
    else (readQuoted rest).map fun (text, tail) => (c :: text, tail)
termination_by text => text.length
decreasing_by all_goals simp only [List.length_cons]; omega

/-- The digits at the front of a text, at least one of them. -/
def readDigits (text : List Char) : Option (List Char × List Char) :=
  let digits := text.takeWhile Decimal.isDigit
  if digits.isEmpty then none else some (digits, text.dropWhile Decimal.isDigit)

/-- The digits of a whole number, without a zero in front of others. -/
def readWhole : List Char → Option (List Char × List Char)
  | '0' :: rest => some (['0'], rest)
  | text => readDigits text

/-- The fraction at the front of a text with its point; nothing if no point stands there. -/
def readFraction : List Char → Option (List Char × List Char)
  | '.' :: rest => (readDigits rest).map fun (digits, behind) => ('.' :: digits, behind)
  | text => some ([], text)

/-- The digits of an exponent behind an optional sign. -/
def readSigned : List Char → Option (List Char × List Char)
  | '-' :: rest => (readDigits rest).map fun (digits, behind) => ('-' :: digits, behind)
  | '+' :: rest => (readDigits rest).map fun (digits, behind) => ('+' :: digits, behind)
  | text => readDigits text

/-- The exponent at the front of a text with its mark; nothing if no mark stands there. -/
def readExponent : List Char → Option (List Char × List Char)
  | c :: rest =>
    if c = 'e' || c = 'E' then
      (readSigned rest).map fun (digits, behind) => ('e' :: digits, behind)
    else some ([], c :: rest)
  | [] => some ([], [])

/-- Whether the whole part of a number is too long. -/
def isTooLong (strict negative integral : Bool) (whole : List Char) : Bool :=
  if strict then Decimal.mostDigits < whole.length + negative.toNat
  else integral && Decimal.mostDigits < whole.length

/-- A number without its sign. -/
def readUnsigned (strict negative : Bool) (text : List Char) :
    Except Refusal (Value × List Char) := do
  let (whole, text) ← orMalformed (readWhole text)
  let (fraction, text) ← orMalformed (readFraction text)
  let (exponent, text) ← orMalformed (readExponent text)
  let integral := fraction.isEmpty && exponent.isEmpty
  if isTooLong strict negative integral whole then throw .tooManyDigits
  if integral then
    let n : Int := Decimal.ofDigits whole
    return (.integer (if negative then -n else n), text)
  return (.float (Binary64.ofUnsigned negative (whole ++ fraction ++ exponent)), text)

/-- A number, or the name of one that is not finite. -/
def readNumber (strict : Bool) : List Char → Except Refusal (Value × List Char)
  | 'N' :: 'a' :: 'N' :: rest => .ok (.float .nan, rest)
  | 'I' :: 'n' :: 'f' :: 'i' :: 'n' :: 'i' :: 't' :: 'y' :: rest =>
    .ok (.float (.infinite false), rest)
  | '-' :: 'I' :: 'n' :: 'f' :: 'i' :: 'n' :: 'i' :: 't' :: 'y' :: rest =>
    .ok (.float (.infinite true), rest)
  | '-' :: rest => readUnsigned strict true rest
  | text => readUnsigned strict false text

mutual
/-- A value; `fuel` bounds the steps and `depth` is how deep it may still be nested. An empty list
or object has no depth. -/
def readValue (strict : Bool) : Nat → Nat → List Char → Except Refusal (Value × List Char)
  | 0, _, _ => .error .malformed
  | fuel + 1, depth, text =>
    match skipSpace text with
    | 'n' :: 'u' :: 'l' :: 'l' :: rest => .ok (.null, rest)
    | 't' :: 'r' :: 'u' :: 'e' :: rest => .ok (.boolean true, rest)
    | 'f' :: 'a' :: 'l' :: 's' :: 'e' :: rest => .ok (.boolean false, rest)
    | '\x22' :: rest =>
      (orMalformed (readQuoted rest)).map fun (s, rest) => (.text (String.ofList s), rest)
    | '[' :: rest =>
      match skipSpace rest, depth with
      | ']' :: rest, _ => .ok (.list [], rest)
      | _, 0 => .error .tooDeep
      | rest, depth + 1 =>
        (readItems strict fuel depth rest).map fun (items, rest) => (.list items, rest)
    | '{' :: rest =>
      match skipSpace rest, depth with
      | '}' :: rest, _ => .ok (.object [], rest)
      | _, 0 => .error .tooDeep
      | rest, depth + 1 =>
        (readEntries strict fuel depth rest).map fun (entries, rest) => (.object entries, rest)
    | rest => readNumber strict rest

/-- One item or more, up to the closing bracket. -/
def readItems (strict : Bool) : Nat → Nat → List Char → Except Refusal (List Value × List Char)
  | 0, _, _ => .error .malformed
  | fuel + 1, depth, text =>
    (readValue strict fuel depth text).bind fun (item, rest) =>
      match skipSpace rest with
      | ',' :: rest =>
        (readItems strict fuel depth rest).map fun (items, rest) => (item :: items, rest)
      | ']' :: rest => .ok ([item], rest)
      | _ => .error .malformed

/-- One entry or more, up to the closing brace. -/
def readEntries (strict : Bool) : Nat → Nat → List Char → Except Refusal (Members × List Char)
  | 0, _, _ => .error .malformed
  | fuel + 1, depth, text =>
    match skipSpace text with
    | '\x22' :: rest =>
      (orMalformed (readQuoted rest)).bind fun (key, rest) =>
        match skipSpace rest with
        | ':' :: rest =>
          (readValue strict fuel depth rest).bind fun (value, rest) =>
            match skipSpace rest with
            | ',' :: rest =>
              (readEntries strict fuel depth rest).map fun (entries, rest) =>
                ((String.ofList key, value) :: entries, rest)
            | '}' :: rest => .ok ([(String.ofList key, value)], rest)
            | _ => .error .malformed
        | _ => .error .malformed
    | _ => .error .malformed
end

/-- The value that a text holds as a whole; entries that repeat a key are kept. -/
def readAll (strict : Bool) (depth : Nat) (text : List Char) : Except Refusal Value := do
  let (value, rest) ← readValue strict (2 * text.length + 2) depth text
  if (skipSpace rest).isEmpty then return value else throw .malformed

/-- How deep the lists and objects of a document may be nested. -/
def documentDepth : Nat := 985

/-- The value a document holds. -/
def read (text : String) : Except Refusal Value :=
  (readAll false documentDepth text.toList).map Value.merged

/-- How deep the lists and objects of a stored value may be nested. -/
def storedDepth : Nat := 200

/-- The value a stored document holds, with all the entries it has. -/
def readStored (text : String) : Except Refusal Value := readAll true storedDepth text.toList

end FederationGraph.Json
