/-!
# Decimal numbers and their text

A decimal number is a natural number of digits times a power of ten. It can be written
positionally, or with an exponent after the leading digit.
-/

namespace Componentry

/-- The number `digits * 10 ^ power`. -/
structure Decimal where
  digits : Nat
  power : Int
deriving DecidableEq, Repr

namespace Decimal

/-- The number of decimal digits of a natural number; zero has one. -/
def width (n : Nat) : Nat :=
  (Nat.toDigits 10 n).length

/-- The digits as characters. -/
def digitChars (x : Decimal) : List Char :=
  Nat.toDigits 10 x.digits

/-- The number of digits before the decimal point, negative or zero if the number is below one. -/
def pointPosition (x : Decimal) : Int :=
  x.digitChars.length + x.power

/-- The positional text, without a point for an integer. -/
def positional (x : Decimal) : List Char :=
  let digits := x.digitChars
  if 0 ≤ x.power then digits ++ List.replicate x.power.toNat '0'
  else if 0 < x.pointPosition then
    digits.take x.pointPosition.toNat ++ '.' :: digits.drop x.pointPosition.toNat
  else '0' :: '.' :: List.replicate (-x.pointPosition).toNat '0' ++ digits

/-- The text with one digit before the point and a signed exponent. -/
def scientific (x : Decimal) : List Char :=
  let exponent := x.pointPosition - 1
  let mantissa :=
    match x.digitChars with
    | [] => []
    | [digit] => [digit]
    | digit :: rest => digit :: '.' :: rest
  let sign := if 0 ≤ exponent then '+' else '-'
  mantissa ++ 'e' :: sign :: Nat.toDigits 10 exponent.natAbs

/-- Removes the zeros at the end of the digits. -/
def stripZeros (digits : Nat) (power : Int) : Decimal :=
  if shrinks : digits ≠ 0 ∧ digits % 10 = 0 then stripZeros (digits / 10) (power + 1)
  else ⟨digits, power⟩
termination_by digits
decreasing_by omega

end Decimal

end Componentry
