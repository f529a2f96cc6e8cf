/-!
# Hexadecimal escapes

Numbers in hexadecimal, the UTF-16 units of a character, and the way back from
one or two units to the character.
-/
namespace FederationGraph.Text

/-- A number in lower-case hexadecimal, filled up with zeros to the width. -/
def hex (width n : Nat) : List Char :=
  let digits := Nat.toDigits 16 n
  List.replicate (width - digits.length) '0' ++ digits

/-- The value of a hexadecimal digit. -/
def hexValue? (c : Char) : Option Nat :=
  if '0' ≤ c && c ≤ '9' then some (c.toNat - '0'.toNat)
  else if 'a' ≤ c && c ≤ 'f' then some (c.toNat - 'a'.toNat + 10)
  else if 'A' ≤ c && c ≤ 'F' then some (c.toNat - 'A'.toNat + 10)
  else none

/-- The number that the leading hexadecimal digits of a text stand for, `width` of them. -/
def hexPrefix? (width : Nat) (text : List Char) : Option Nat :=
  if text.length < width then none
  else
    (text.take width).foldl
      (fun n c => n.bind fun n => (hexValue? c).map fun digit => 16 * n + digit) (some 0)

/-- The UTF-16 units of a character. -/
def units (c : Char) : List Nat :=
  let n := c.toNat
  if n < 0x10000 then [n]
  else [0xD800 + (n - 0x10000) / 0x400, 0xDC00 + (n - 0x10000) % 0x400]

/-- Whether a unit opens a pair of units. -/
def isHighUnit (n : Nat) : Bool := 0xD800 ≤ n && n ≤ 0xDBFF

/-- Whether a unit closes a pair of units. -/
def isLowUnit (n : Nat) : Bool := 0xDC00 ≤ n && n ≤ 0xDFFF

/-- The character with a given code point, if there is one. -/
def scalar? (n : Nat) : Option Char :=
  if h : n.isValidChar then some (Char.ofNatAux n h) else none

/-- The character of a pair of units. -/
def pair? (high low : Nat) : Option Char :=
  if isHighUnit high && isLowUnit low then
    scalar? (0x10000 + (high - 0xD800) * 0x400 + (low - 0xDC00))
  else none

end FederationGraph.Text
