import TileBindery.Power

/-!
# Binary64 numbers

A double-precision number is its 64-bit pattern.  Order, exact values and correct rounding are
integer computations on the fields of the pattern, so that nothing depends on machine arithmetic.
-/

namespace TileBindery

/-- A double-precision number, given by its bit pattern. -/
structure Binary64 where
  /-- Sign, eleven exponent bits and fifty-two fraction bits. -/
  bits : UInt64
  deriving DecidableEq, Repr, Inhabited

namespace Binary64

def magnitude (x : Binary64) : Nat := x.bits.toNat % 2 ^ 63

def isNegative (x : Binary64) : Bool := 2 ^ 63 ≤ x.bits.toNat

def infinityMagnitude : Nat := 2047 * 2 ^ 52

/-- The pattern stands for no number. -/
def isNaN (x : Binary64) : Bool := infinityMagnitude < x.magnitude

/-- The pattern is one of the two infinities. -/
def isInfinite (x : Binary64) : Bool := x.magnitude = infinityMagnitude

/-- The pattern is one of the two zeros. -/
def isZero (x : Binary64) : Bool := x.magnitude = 0

/-- A sign and a magnitude as one pattern. -/
def ofMagnitude (negative : Bool) (magnitude : Nat) : Binary64 :=
  ⟨UInt64.ofNat (if negative then 2 ^ 63 + magnitude else magnitude)⟩

def zero : Binary64 := ⟨0⟩

/-- An integer that orders all patterns but the NaNs as the numbers are ordered.  Both zeros
have rank zero. -/
def rank (x : Binary64) : Int := if x.isNegative then -x.magnitude else x.magnitude

/-- Numeric comparison; a NaN exceeds nothing and is exceeded by nothing. -/
def exceeds (x y : Binary64) : Bool := !x.isNaN && !y.isNaN && y.rank < x.rank

/-- A finite magnitude as `significand * 2 ^ exponent`. -/
structure Scaled where
  /-- Integer significand, below `2 ^ 53`. -/
  significand : Nat
  exponent : Int

/-- The exact value of a finite magnitude. -/
def scaled (x : Binary64) : Scaled :=
  let exponent : Nat := x.magnitude / 2 ^ 52
  let fraction := x.magnitude % 2 ^ 52
  if exponent = 0 then ⟨fraction, -1074⟩ else ⟨2 ^ 52 + fraction, (exponent : Int) - 1075⟩

/-- The quotient of two numbers rounded to the nearest integer, a half to the even neighbour. -/
def roundedQuotient (numerator denominator : Nat) : Nat :=
  let quotient := numerator / denominator
  let twice := 2 * (numerator % denominator)
  if denominator < twice ∨ (denominator = twice ∧ quotient % 2 = 1) then quotient + 1 else quotient

def belowPower (numerator denominator : Nat) (exponent : Int) : Bool :=
  if 0 ≤ exponent then numerator < denominator * 2 ^ exponent.toNat
  else numerator * 2 ^ (-exponent).toNat < denominator

/-- The magnitude nearest to `numerator / denominator`, for a positive denominator.  Quotients
beyond the largest finite number give the magnitude of infinity. -/
def magnitudeOfRatio (numerator denominator : Nat) : Nat :=
  if numerator = 0 then 0
  else
    let estimate : Int := (numerator.log2 : Int) - denominator.log2
    let exponent := if belowPower numerator denominator estimate then estimate - 1 else estimate
    let unit := max (exponent - 52) (-1074)
    let significand :=
      if 0 ≤ unit then roundedQuotient numerator (denominator * 2 ^ unit.toNat)
      else roundedQuotient (numerator * 2 ^ (-unit).toNat) denominator
    min infinityMagnitude ((unit + 1074).toNat * 2 ^ 52 + significand)

/-- The number nearest to a quotient with the given sign. -/
def ofRatio (negative : Bool) (numerator denominator : Nat) : Binary64 :=
  ofMagnitude negative (magnitudeOfRatio numerator denominator)

end Binary64
end TileBindery
