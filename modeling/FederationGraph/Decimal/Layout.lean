import FederationGraph.Decimal.Shortest

/-!
# Layout of decimal numbers

How the shortest decimal of a number is written down: with a point among the
digits for moderate sizes, with one digit in front of the point and a power of
ten for the others. A number without a fraction keeps one zero behind the point.
-/
namespace FederationGraph.Binary64

/-- The choices a written form makes. -/
structure Layout where
  /-- The least power of ten that is written without an exponent. -/
  leastPositional : Int
  /-- The first power of ten that is written with an exponent again. -/
  firstScientific : Int
  /-- The least number of digits in an exponent. -/
  exponentWidth : Nat
  /-- The text of positive infinity. -/
  infinity : String
  /-- The text of negative infinity. -/
  negativeInfinity : String
  /-- The text of what is not a number. -/
  notANumber : String

/-- The digits of a decimal without the zeros at its end. -/
def Tens.significant (d : Tens) : List Char :=
  ((Decimal.digits d.coefficient).reverse.dropWhile (· == '0')).reverse

/-- The power of ten of a decimal's first digit, plus one. -/
def Tens.pointPosition (d : Tens) : Int :=
  (Decimal.digits d.coefficient).length + d.exponent

/-- Digits with the point at `position`, filled up with zeros on either side. -/
def positional (digits : List Char) (position : Int) : List Char :=
  if position ≤ 0 then '0' :: '.' :: (List.replicate (-position).toNat '0' ++ digits)
  else
    let whole := position.toNat
    if digits.length ≤ whole then
      digits ++ List.replicate (whole - digits.length) '0' ++ ['.', '0']
    else digits.take whole ++ '.' :: digits.drop whole

/-- Digits with the point behind the first one, and the power of ten of that digit. -/
def scientific (width : Nat) (digits : List Char) (power : Int) : List Char :=
  let lead := digits.take 1
  let rest := digits.drop 1
  let point := if rest.isEmpty then [] else '.' :: rest
  let sign := if power < 0 then '-' else '+'
  lead ++ point ++ 'e' :: sign :: Decimal.padded width power.natAbs

/-- The magnitude of a finite number in a layout. -/
def Layout.magnitudeText (layout : Layout) (x : Finite) : List Char :=
  if x.mantissa = 0 then ['0', '.', '0']
  else
    let d := x.shortest
    let power := d.pointPosition - 1
    if layout.leastPositional ≤ power ∧ power < layout.firstScientific then
      positional d.significant d.pointPosition
    else scientific layout.exponentWidth d.significant power

/-- A number in a layout. -/
def Layout.text (layout : Layout) : Binary64 → String
  | .finite x =>
    let magnitude := layout.magnitudeText x
    String.ofList (if x.negative then '-' :: magnitude else magnitude)
  | .infinite false => layout.infinity
  | .infinite true => layout.negativeInfinity
  | .nan => layout.notANumber

/-- The layout for readers: powers of ten from -4 to 15 are positional, an exponent has a sign
and at least two digits. -/
def display : Layout := ⟨-4, 16, 2, "inf", "-inf", "nan"⟩

end FederationGraph.Binary64
