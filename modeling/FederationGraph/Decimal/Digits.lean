/-!
# Decimal digits of natural numbers

Writing a natural number without leading zeros, writing it to a fixed width, and
reading a run of digits.
-/
namespace FederationGraph.Decimal

/-- The ten digits. -/
def isDigit (c : Char) : Bool := '0' ≤ c && c ≤ '9'

/-- The digits of a number, without leading zeros; zero is one digit. -/
def digits (n : Nat) : List Char := Nat.toDigits 10 n

/-- The number a run of digits stands for. -/
def ofDigits (text : List Char) : Nat :=
  text.foldl (fun n c => 10 * n + (c.toNat - '0'.toNat)) 0

/-- The most digits that are read as one integer. -/
def mostDigits : Nat := 4300

/-- The digits of a number behind as many zeros as make up the width. -/
def padded (width n : Nat) : List Char :=
  List.replicate (width - (digits n).length) '0' ++ digits n

/-- The digits of an integer behind its sign; only negative numbers carry one. -/
def signedDigits (n : Int) : List Char :=
  if n < 0 then '-' :: digits n.natAbs else digits n.natAbs

/-- The number in decimal. -/
def text (n : Nat) : String := String.ofList (digits n)

end FederationGraph.Decimal
