import FederationGraph.Decimal.Binary64

/-!
# Sums and products of binary64 numbers

A sum and a product are the number nearest to the exact one. Where the exact one
is zero or not finite, the signs decide.
-/
namespace FederationGraph.Binary64

/-- The numerator of a finite number's ratio behind its sign. -/
def Finite.signed (x : Finite) : Int := if x.negative then -(x.ratio.1 : Int) else x.ratio.1

/-- Whether a number has a minus sign. -/
def isNegative : Binary64 → Bool
  | .finite x => x.negative
  | .infinite negative => negative
  | .nan => false

/-- Whether a number is zero. -/
def isZero : Binary64 → Bool
  | .finite x => x.mantissa = 0
  | _ => false

/-- The number with the other sign. -/
def neg : Binary64 → Binary64
  | .finite x => .finite ⟨!x.negative, x.mantissa, x.exponent, x.canonical⟩
  | .infinite negative => .infinite !negative
  | .nan => .nan

/-- The sum of two finite numbers. Nothing is left with a plus sign unless both are negative. -/
def Finite.add (x y : Finite) : Binary64 :=
  let sum := x.signed * y.ratio.2 + y.signed * x.ratio.2
  if sum = 0 then zero (x.negative && y.negative)
  else ofRatio (sum < 0) sum.natAbs (x.ratio.2 * y.ratio.2)

/-- The sum of two numbers. -/
def add : Binary64 → Binary64 → Binary64
  | .finite x, .finite y => x.add y
  | .infinite s, .infinite t => if s = t then .infinite s else .nan
  | .infinite s, .finite _ => .infinite s
  | .finite _, .infinite s => .infinite s
  | .nan, _ => .nan
  | _, .nan => .nan

/-- The product of two finite numbers. -/
def Finite.mul (x y : Finite) : Binary64 :=
  ofRatio (x.negative != y.negative) (x.ratio.1 * y.ratio.1) (x.ratio.2 * y.ratio.2)

/-- The product of two numbers. Zero times infinity is no number. -/
def mul (x y : Binary64) : Binary64 :=
  match x, y with
  | .nan, _ => .nan
  | _, .nan => .nan
  | .finite a, .finite b => a.mul b
  | _, _ => if x.isZero || y.isZero then .nan else .infinite (x.isNegative != y.isNegative)

end FederationGraph.Binary64
