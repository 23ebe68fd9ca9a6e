import Componentry.Number.Decimal
import Componentry.Number.Double

/-!
# Shortest decimal digits

The shortest decimal of a double-precision number is the one with the fewest digits among the
decimals that round to the number, and of those the nearest. All tests are exact on natural
numbers: the reals that round to a number form an interval, and on each decimal grid only the two
neighbours of the number can be its nearest grid points.
-/

namespace Componentry

/-- What decides between two equally short and equally near decimals. -/
inductive TieRule where
  /-- The larger one. -/
  | up
  /-- The one whose last digit is even. -/
  | even
deriving DecidableEq, Repr

namespace Double

/-- The power of ten of the leading decimal digit of a positive quotient. -/
def leadingPower (numerator denominator : Nat) : Int :=
  if denominator ≤ numerator then (Decimal.width (numerator / denominator) : Int) - 1
  else -(Decimal.width ((denominator + numerator - 1) / numerator - 1) : Int)

/-- The interval of the reals that round to a number, in quarters of its last place. -/
structure RoundingInterval where
  lower : Nat
  value : Nat
  upper : Nat
  closed : Bool

/-- The interval that rounds to a number. Below a power of two the neighbours are twice as dense. -/
def roundingInterval (x : Double) : RoundingInterval :=
  let atPowerOfTwo := x.fraction.val == 0 && 1 < x.exponent.val
  { lower := 4 * x.significand - (if atPowerOfTwo then 1 else 2)
    value := 4 * x.significand
    upper := 4 * x.significand + 2
    closed := x.significand % 2 == 0 }

/-- Membership in the interval, all in the same unit. -/
def RoundingInterval.contains (interval : RoundingInterval) (unit point : Nat) : Bool :=
  if interval.closed then interval.lower * unit ≤ point && point ≤ interval.upper * unit
  else interval.lower * unit < point && point < interval.upper * unit

/-- The multiple of `10 ^ power` that is nearest to the number among those that round to it. -/
def nearestOnGrid? (tie : TieRule) (x : Double) (power : Int) : Option Nat :=
  let interval := x.roundingInterval
  let quarterScale := x.scale - 2
  let gridUnit := Nat.pow 10 power.toNat * Nat.pow 2 (-quarterScale).toNat
  let numberUnit := Nat.pow 2 quarterScale.toNat * Nat.pow 10 (-power).toNat
  let value := interval.value * numberUnit
  let below := value / gridUnit
  let above := below + 1
  match interval.contains numberUnit (below * gridUnit),
      interval.contains numberUnit (above * gridUnit) with
  | true, true =>
    let distanceBelow := value - below * gridUnit
    let distanceAbove := above * gridUnit - value
    if distanceBelow < distanceAbove then some below
    else if distanceAbove < distanceBelow then some above
    else match tie with
      | .up => some above
      | .even => some (if below % 2 == 0 then below else above)
  | true, false => some below
  | false, true => some above
  | false, false => none

/-- The most digits that a shortest decimal can need. -/
def maxDigits : Nat := 17

/-- The shortest decimal of the magnitude of a number. -/
def shortest (tie : TieRule) (x : Double) : Decimal :=
  let (numerator, denominator) := x.ratio
  let leading := leadingPower numerator denominator
  let found := (List.range maxDigits).findSome? fun (extra : Nat) =>
    let power := leading - extra
    (x.nearestOnGrid? tie power).map fun digits => Decimal.stripZeros digits power
  found.getD ⟨0, 0⟩

/-- The sign and the positional text of a number: integers without a point, never an exponent. -/
def positionalText (x : Double) : String :=
  let sign := if x.negative then ['-'] else []
  let magnitude := if x.isZero then ['0'] else (x.shortest .up).positional
  String.ofList (sign ++ magnitude)

end Double

end Componentry
