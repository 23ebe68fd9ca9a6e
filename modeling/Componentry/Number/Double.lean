/-!
# Double-precision numbers

A finite double-precision number is a sign, a biased exponent and a fraction. Each number has one
representation; the two zeros are different numbers. Arithmetic is exact on natural numbers and
rounds once, to the nearest number and on a tie to the even one.
-/

namespace Componentry

/-- A finite double-precision binary number. -/
structure Double where
  negative : Bool
  exponent : Fin 2047
  fraction : Fin (Nat.pow 2 52)
deriving DecidableEq, Repr

namespace Double

/-- The integer whose multiple by `2 ^ scale` is the magnitude. -/
def significand (x : Double) : Nat :=
  if x.exponent.val = 0 then x.fraction.val else x.fraction.val + Nat.pow 2 52

/-- The power of two that the significand counts. -/
def scale (x : Double) : Int :=
  (max x.exponent.val 1 : Nat) - 1075

def zero (negative : Bool) : Double :=
  ⟨negative, 0, 0⟩

def isZero (x : Double) : Bool :=
  x.significand == 0

/-- The magnitude as a fraction of natural numbers. -/
def ratio (x : Double) : Nat × Nat :=
  if 0 ≤ x.scale then (x.significand * Nat.pow 2 x.scale.toNat, 1)
  else (x.significand, Nat.pow 2 (-x.scale).toNat)

/-- The quotient rounded to the nearest integer, a tie to the even one. -/
def roundQuotient (numerator denominator : Nat) : Nat :=
  let quotient := numerator / denominator
  let rest := 2 * (numerator % denominator)
  if rest < denominator || (rest == denominator && quotient % 2 == 0) then quotient
  else quotient + 1

/-- The number with this significand and scale, if the format has it. -/
def pack? (negative : Bool) (significand : Nat) (scale : Int) : Option Double :=
  if significand < Nat.pow 2 52 then
    some ⟨negative, 0, Fin.ofNat _ significand⟩
  else
    let biased := (scale + 1075).toNat
    if bound : biased < 2047 then
      some ⟨negative, ⟨biased, bound⟩, Fin.ofNat _ (significand - Nat.pow 2 52)⟩
    else none

/-- The number nearest to a quotient of natural numbers, or `none` beyond the largest number. -/
def ofRatio? (negative : Bool) (numerator denominator : Nat) : Option Double :=
  if numerator = 0 then some (zero negative)
  else
    let estimate : Int := (numerator.log2 : Int) - denominator.log2
    let reaches : Bool :=
      if 0 ≤ estimate then denominator * Nat.pow 2 estimate.toNat ≤ numerator
      else denominator ≤ numerator * Nat.pow 2 (-estimate).toNat
    let scale := max (-1074) (if reaches then estimate - 52 else estimate - 53)
    let significand :=
      if 0 ≤ scale then roundQuotient numerator (denominator * Nat.pow 2 scale.toNat)
      else roundQuotient (numerator * Nat.pow 2 (-scale).toNat) denominator
    if significand = Nat.pow 2 53 then pack? negative (Nat.pow 2 52) (scale + 1)
    else pack? negative significand scale

/-- The number nearest to an integer. -/
def ofInt? (value : Int) : Option Double :=
  ofRatio? (value < 0) value.natAbs 1

/-- The product, rounded. -/
def mul? (x y : Double) : Option Double :=
  ofRatio? (x.negative != y.negative) (x.ratio.1 * y.ratio.1) (x.ratio.2 * y.ratio.2)

/-- The quotient, rounded. A quotient by zero is taken as zero; no caller divides by zero. -/
def div? (x y : Double) : Option Double :=
  ofRatio? (x.negative != y.negative) (x.ratio.1 * y.ratio.2) (x.ratio.2 * y.ratio.1)

/-- The largest power of ten that is a finite number. -/
def maxPowerOfTen : Nat := 308

/-- The number nearest to a power of ten. -/
def powerOfTen? (power : Nat) : Option Double :=
  ofRatio? false (Nat.pow 10 power) 1

/-- Scales a number by a power of ten in one rounded step, or in several where the power itself is
too small for the format. `none` is a result beyond the largest number. -/
def scaleByTen? (x : Double) (power : Int) : Option Double :=
  if power.natAbs ≤ maxPowerOfTen then do
    let factor ← powerOfTen? power.natAbs
    if 0 ≤ power then x.mul? factor else x.div? factor
  else if x.isZero then some x
  else if 0 ≤ power then none
  else do
    let factor ← powerOfTen? maxPowerOfTen
    (← x.div? factor).scaleByTen? (power + maxPowerOfTen)
termination_by power.natAbs
decreasing_by simp only [maxPowerOfTen] at *; omega

/-- The number that `digits * 10 ^ power` is read as: the digits are rounded first, then scaled. -/
def ofDecimal? (negative : Bool) (digits : Nat) (power : Int) : Option Double := do
  let magnitude ← ofRatio? false digits 1
  let scaled ← magnitude.scaleByTen? power
  return { scaled with negative := negative }

/-- The integer that the number is, if it is one. -/
def toInt? (x : Double) : Option Int :=
  let (numerator, denominator) := x.ratio
  if numerator % denominator = 0 then
    let magnitude : Int := (numerator / denominator : Nat)
    some (if x.negative then -magnitude else magnitude)
  else none

end Double

end Componentry
