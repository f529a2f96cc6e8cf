/-!
# Base64

Bytes written with an alphabet of 64 characters, four of them for three bytes.
Characters outside of the alphabet are skipped. Padding completes a group of two
or three characters, and what follows it is not read; elsewhere it is skipped too.
-/
namespace FederationGraph.Text

/-- The value of a character of the alphabet. -/
def sextet? (c : Char) : Option Nat :=
  if 'A' ≤ c && c ≤ 'Z' then some (c.toNat - 'A'.toNat)
  else if 'a' ≤ c && c ≤ 'z' then some (c.toNat - 'a'.toNat + 26)
  else if '0' ≤ c && c ≤ '9' then some (c.toNat - '0'.toNat + 52)
  else if c = '+' then some 62
  else if c = '/' then some 63
  else none

/-- The whole bytes that up to four values hold. -/
def groupBytes : List Nat → List UInt8
  | a :: b :: rest =>
    (4 * a + b / 16).toUInt8 ::
      match rest with
      | c :: rest =>
        (16 * (b % 16) + c / 4).toUInt8 ::
          match rest with
          | d :: _ => [(64 * (c % 4) + d).toUInt8]
          | [] => []
      | [] => []
  | _ => []

/-- The bytes of a text behind the values of an incomplete group and the padding after them. -/
def base64Rest (group : List Nat) (pads : Nat) : List Char → Option (List UInt8)
  | [] => if group.isEmpty then some [] else none
  | c :: rest =>
    if c = '=' then
      if group.length < 2 then base64Rest group pads rest
      else if 4 ≤ group.length + pads + 1 then some (groupBytes group)
      else base64Rest group (pads + 1) rest
    else
      match sextet? c with
      | none => base64Rest group pads rest
      | some value =>
        let group := group ++ [value]
        if group.length = 4 then (base64Rest [] 0 rest).map (groupBytes group ++ ·)
        else base64Rest group 0 rest

/-- The bytes that a text stands for; its last group has to be complete. -/
def base64? (text : List Char) : Option (List UInt8) := base64Rest [] 0 text

end FederationGraph.Text
