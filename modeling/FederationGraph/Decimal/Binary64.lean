import FederationGraph.Decimal.Digits

/-!
# Binary64 numbers

The finite numbers are kept as a sign, a mantissa and a power of two in the one
way that has either a full mantissa or the least exponent. A ratio and a decimal
are read as the nearest such number, a tie going to the even mantissa; what lies
beyond the largest finite number is infinite.
-/
namespace FederationGraph

namespace Binary64

/-- The pairs of mantissa and exponent that write a magnitude in the one admitted way. -/
def IsCanonical (mantissa : Nat) (exponent : Int) : Prop :=
  mantissa < Nat.pow 2 53 ∧ -1074 ≤ exponent ∧ exponent ≤ 971 ∧
    (Nat.pow 2 52 ≤ mantissa ∨ exponent = -1074)

instance (mantissa : Nat) (exponent : Int) : Decidable (IsCanonical mantissa exponent) := by
  unfold IsCanonical; infer_instance

/-- A finite number: its magnitude is `mantissa` times two to the `exponent`. -/
structure Finite where
  negative : Bool
  mantissa : Nat
  exponent : Int
  canonical : IsCanonical mantissa exponent
  deriving DecidableEq

end Binary64

/-- A binary64 number. -/
inductive Binary64 where
  | finite (x : Binary64.Finite)
  | infinite (negative : Bool)
  | nan
  deriving DecidableEq

namespace Binary64

/-- Zero with either sign. -/
def zero (negative : Bool) : Binary64 := .finite ⟨negative, 0, -1074, by decide⟩

instance : Inhabited Binary64 := ⟨zero false⟩

/-- The number with a given mantissa and exponent, infinite when there is none. -/
def make (negative : Bool) (mantissa : Nat) (exponent : Int) : Binary64 :=
  if h : IsCanonical mantissa exponent then .finite ⟨negative, mantissa, exponent, h⟩
  else .infinite negative

/-- The quotient rounded to the nearest natural number, a half going to the even one. -/
def roundDiv (numerator denominator : Nat) : Nat :=
  let quotient := numerator / denominator
  let twice := 2 * (numerator % denominator)
  if twice < denominator then quotient
  else if denominator < twice then quotient + 1
  else if quotient % 2 = 0 then quotient
  else quotient + 1

/-- A ratio divided by a power of the base, as a ratio. -/
def shift (base numerator denominator : Nat) (exponent : Int) : Nat × Nat :=
  (numerator * base.pow (-exponent).toNat, denominator * base.pow exponent.toNat)

/-- The least admitted exponent at which the ratio's mantissa has at most 53 bits. -/
def exponentFor (numerator denominator : Nat) : Int :=
  let tight : Int := (numerator.log2 : Int) - denominator.log2 - 53
  let scaled := shift 2 numerator denominator tight
  max (-1074) (if scaled.1 < scaled.2 * Nat.pow 2 53 then tight else tight + 1)

/-- The number nearest to a ratio. -/
def ofRatio (negative : Bool) (numerator denominator : Nat) : Binary64 :=
  if numerator = 0 then zero negative
  else
    let exponent := exponentFor numerator denominator
    let scaled := shift 2 numerator denominator exponent
    let mantissa := roundDiv scaled.1 scaled.2
    if mantissa < Nat.pow 2 53 then make negative mantissa exponent
    else make negative (Nat.pow 2 52) (exponent + 1)

/--
The number nearest to `coefficient` times ten to the `exponent`. Magnitudes from
10^310 on are infinite and those under 10^-330 are zero, which keeps the powers
of ten small.
-/
def ofDecimal (negative : Bool) (coefficient : Nat) (exponent : Int) : Binary64 :=
  let size : Int := (Decimal.digits coefficient).length + exponent
  if coefficient = 0 then zero negative
  else if 310 < size then .infinite negative
  else if size < -330 then zero negative
  else
    ofRatio negative (coefficient * Nat.pow 10 exponent.toNat)
      (Nat.pow 10 (-exponent).toNat)

/-- The integer behind an exponent mark: an optional sign and digits. -/
def exponentOf : List Char → Int
  | '-' :: text => -(Decimal.ofDigits text : Int)
  | '+' :: text => Decimal.ofDigits text
  | text => Decimal.ofDigits text

/-- Reads an unsigned number: digits, then a fraction and an exponent, either of which may be
left out. -/
def ofUnsigned (negative : Bool) (text : List Char) : Binary64 :=
  let whole := text.takeWhile Decimal.isDigit
  let behind := text.dropWhile Decimal.isDigit
  let fraction := if behind.head? = some '.' then behind.tail.takeWhile Decimal.isDigit else []
  let mark :=
    if behind.head? = some '.' then behind.tail.dropWhile Decimal.isDigit else behind
  ofDecimal negative (Decimal.ofDigits (whole ++ fraction))
    (exponentOf mark.tail - fraction.length)

/-- Reads the text of a number in decimal. -/
def ofText : List Char → Binary64
  | '-' :: text => ofUnsigned true text
  | text => ofUnsigned false text

/-- Whether a number is finite. -/
def isFinite : Binary64 → Bool
  | .finite _ => true
  | _ => false

/-- A finite number's magnitude as a ratio. -/
def Finite.ratio (x : Finite) : Nat × Nat :=
  (x.mantissa * Nat.pow 2 x.exponent.toNat, Nat.pow 2 (-x.exponent).toNat)

/-- The integer a finite number equals, if it has no fraction. -/
def Finite.toInt? (x : Finite) : Option Int :=
  let (numerator, denominator) := x.ratio
  if numerator % denominator = 0 then
    let magnitude : Int := numerator / denominator
    some (if x.negative then -magnitude else magnitude)
  else none

end Binary64

end FederationGraph
