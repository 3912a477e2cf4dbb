import TileBindery.Binary64.Basic
import TileBindery.Digits

/-!
# Decimal numbers as doubles

A decimal number without a sign is a sequence of digits times a power of ten.  It is read as the
double nearest to its value, a tie going to the even neighbour.
-/

namespace TileBindery

/-- A decimal number without a sign. -/
structure Decimal where
  /-- All digits, most significant first. -/
  digits : List Nat
  /-- The power of ten that the last digit is multiplied by. -/
  power : Int
  deriving DecidableEq, Repr

namespace Decimal

/-- The decimal with digits in front of and behind a point, times a power of ten. -/
def ofParts (integer fraction : List Nat) (exponent : Int) : Decimal :=
  ⟨integer ++ fraction, exponent - fraction.length⟩

/-- The power of ten that an exponent with a sign stands for. -/
def signedPower (negative : Bool) (digits : List Nat) : Int :=
  if negative then -(Digits.value 10 digits : Int) else Digits.value 10 digits

/-- Powers of ten beyond this one lead out of the range of doubles. -/
def range : Nat := 400

/-- The magnitude nearest to a decimal.  Powers of ten that lead out of the range of doubles,
whatever the digits are, are not computed. -/
def nearestMagnitude (decimal : Decimal) : Nat :=
  let significand := Digits.value 10 decimal.digits
  if significand = 0 then 0
  else if 0 ≤ decimal.power then
    if range < decimal.power then Binary64.infinityMagnitude
    else Binary64.magnitudeOfRatio (significand * 10 ^ decimal.power.toNat) 1
  else if decimal.power + decimal.digits.length < -(range : Int) then 0
  else Binary64.magnitudeOfRatio significand (10 ^ (-decimal.power).toNat)

end Decimal
end TileBindery
