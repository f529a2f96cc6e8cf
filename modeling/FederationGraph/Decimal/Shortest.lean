import FederationGraph.Decimal.Binary64

/-!
# The shortest decimal of a binary64 number

A number is written with the fewest digits that read back as the same number,
and with the digits nearest to it among those. The search goes through the
decimal grids of one digit, two digits and so on, and looks at the two
neighbours of the number on each grid.
-/
namespace FederationGraph.Binary64

/-- The power of ten just above a positive ratio: the least `p` with the ratio under `10 ^ p`. -/
def magnitude (numerator denominator : Nat) : Int :=
  let guess : Int :=
    ((Decimal.digits numerator).length : Int) - (Decimal.digits denominator).length
  if denominator * Nat.pow 10 guess.toNat ≤ numerator * Nat.pow 10 (-guess).toNat then guess + 1
  else guess

/-- A decimal: `coefficient` times ten to the `exponent`. -/
structure Tens where
  coefficient : Nat
  exponent : Int
  deriving DecidableEq, Repr

/-- The two neighbours of a number among the decimals of `count` digits, the nearer one first. -/
def Finite.neighbours (x : Finite) (count : Nat) : List Tens :=
  let (numerator, denominator) := x.ratio
  let step := magnitude numerator denominator - count
  let scaled := shift 10 numerator denominator step
  let below := scaled.1 / scaled.2
  let nearest := roundDiv scaled.1 scaled.2
  let other := if nearest = below then below + 1 else below
  [⟨nearest, step⟩, ⟨other, step⟩]

/-- Whether a decimal reads back as the number. -/
def Finite.readsBack (x : Finite) (d : Tens) : Bool :=
  ofDecimal x.negative d.coefficient d.exponent == .finite x

/-- The number itself as a decimal. -/
def Finite.exactTens (x : Finite) : Tens :=
  if x.exponent < 0 then ⟨x.mantissa * Nat.pow 5 (-x.exponent).toNat, x.exponent⟩
  else ⟨x.mantissa * Nat.pow 2 x.exponent.toNat, 0⟩

/-- The shortest decimal that reads back as the number. -/
def Finite.shortest (x : Finite) : Tens :=
  ((List.range 17).findSome? fun count => (x.neighbours (count + 1)).find? x.readsBack).getD
    x.exactTens

end FederationGraph.Binary64
