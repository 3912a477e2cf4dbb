import TileBindery.Binary64.Basic

/-!
# Shortest decimal text

The decimal of a finite number is the one with the fewest digits among all decimals that round to
it, and the nearest of those.  The candidates of a digit count are the two neighbours of the exact
value on the grid of that many digits, and all comparisons are between natural numbers.
-/

namespace TileBindery
namespace Binary64

/-- The decimal `digits * 10 ^ exponent`. -/
structure Decimal where
  /-- All digits, read as one number. -/
  digits : Nat
  exponent : Int
  deriving DecidableEq, Repr

def decimalLe (left : Nat) (ten : Int) (right : Nat) (two : Int) : Bool :=
  left * 10 ^ ten.toNat * 2 ^ (-two).toNat ≤ right * 2 ^ two.toNat * 10 ^ (-ten).toNat

def decimalGe (left : Nat) (ten : Int) (right : Nat) (two : Int) : Bool :=
  right * 2 ^ two.toNat * 10 ^ (-ten).toNat ≤ left * 10 ^ ten.toNat * 2 ^ (-two).toNat

/-- The reals that round to a number: both ends in quarters of its unit, and whether they belong. -/
structure Interval where
  lower : Nat
  upper : Nat
  exponent : Int
  /-- Both ends round to the number. -/
  closed : Bool

/-- The interval of a positive finite number.  Below a power of two the unit halves. -/
def interval (value : Scaled) : Interval where
  lower :=
    if value.significand = 2 ^ 52 ∧ value.exponent ≠ -1074 then 4 * value.significand - 1
    else 4 * value.significand - 2
  upper := 4 * value.significand + 2
  exponent := value.exponent - 2
  closed := value.significand % 2 = 0

def Interval.contains (range : Interval) (decimal : Decimal) : Bool :=
  let ten := decimal.exponent
  let two := range.exponent
  if range.closed then
    decimalGe decimal.digits ten range.lower two && decimalLe decimal.digits ten range.upper two
  else
    !decimalLe decimal.digits ten range.lower two && !decimalGe decimal.digits ten range.upper two

/-- The largest power of ten that a positive number reaches. -/
def tenExponent (value : Scaled) : Int :=
  let estimate := Int.fdiv ((value.significand.log2 + value.exponent) * 30103) 100000
  if decimalLe 1 (estimate + 1) value.significand value.exponent then estimate + 1 else estimate

/-- The greatest multiple of `10 ^ ten` that is at most the number. -/
def flooredAt (value : Scaled) (ten : Int) : Nat :=
  value.significand * 2 ^ value.exponent.toNat * 10 ^ (-ten).toNat /
    (2 ^ (-value.exponent).toNat * 10 ^ ten.toNat)

/-- Which of two decimals stands for a number halfway between them. -/
inductive TieRule where
  /-- The one whose last digit is even. -/
  | toEven
  | up
  deriving DecidableEq, Repr

/-- The nearer of the two grid neighbours of a number. -/
def nearer (tie : TieRule) (value : Scaled) (below above : Decimal) : Decimal :=
  let midpoint := 2 * below.digits + 1
  if !decimalLe midpoint below.exponent value.significand (value.exponent + 1) then below
  else if !decimalGe midpoint below.exponent value.significand (value.exponent + 1) then above
  else if tie = .toEven ∧ below.digits % 2 = 0 then below
  else above

/-- The better of the two grid neighbours of a number that rounds to it, if there is one. -/
def gridCandidate (tie : TieRule) (value : Scaled) (ten : Int) : Option Decimal :=
  let range := interval value
  let below : Decimal := ⟨flooredAt value ten, ten⟩
  let above : Decimal := ⟨below.digits + 1, ten⟩
  match range.contains below && 0 < below.digits, range.contains above with
  | true, true => some (nearer tie value below above)
  | true, false => some below
  | false, true => some above
  | false, false => none

/-- The candidate of the coarsest grid that has one, from the grid of `ten` downwards. -/
def firstCandidate (tie : TieRule) (value : Scaled) : (grids : Nat) → (ten : Int) → Decimal
  | 0, ten => ⟨flooredAt value ten, ten⟩
  | grids + 1, ten =>
      (gridCandidate tie value ten).getD (firstCandidate tie value grids (ten - 1))

/-- Move the zeros at the end of the digits into the exponent. -/
def trimZeros : (fuel : Nat) → Decimal → Decimal
  | 0, decimal => decimal
  | fuel + 1, decimal =>
      if decimal.digits % 10 = 0 then trimZeros fuel ⟨decimal.digits / 10, decimal.exponent + 1⟩
      else decimal

/-- The shortest decimal of a finite number other than zero, without its sign. -/
def shortest (tie : TieRule) (x : Binary64) : Decimal :=
  trimZeros 17 (firstCandidate tie x.scaled 17 (tenExponent x.scaled))

/-- How a number format chooses and lays out digits. -/
structure Layout where
  /-- What becomes of a number halfway between two shortest decimals. -/
  tie : TieRule
  positionalFrom : Int
  /-- Least power of ten above those that are written positionally. -/
  positionalBelow : Int
  /-- Mark between digits and a positive exponent. -/
  positiveMark : String

/-- Digits of `decimal` with a point, a zero standing for missing digits on either side. -/
def positional (digits : List Char) (power : Int) : String :=
  let count : Int := digits.length
  if power < 0 then
    "0." ++ String.ofList (List.replicate (-power - 1).toNat '0' ++ digits)
  else if count ≤ power + 1 then
    String.ofList (digits ++ List.replicate (power + 1 - count).toNat '0') ++ ".0"
  else
    String.ofList (digits.take (power + 1).toNat ++ '.' :: digits.drop (power + 1).toNat)

/-- One digit, a point if more follow, and the power of ten. -/
def exponential (layout : Layout) (digits : List Char) (power : Int) : String :=
  let lead := String.ofList (digits.take 1)
  let tail := if digits.length ≤ 1 then "" else "." ++ String.ofList (digits.drop 1)
  let mark := if power < 0 then "e-" else layout.positiveMark
  lead ++ tail ++ mark ++ toString power.natAbs

def finiteText (layout : Layout) (x : Binary64) : String :=
  let sign := if x.isNegative then "-" else ""
  if x.isZero then sign ++ "0.0"
  else
    let decimal := x.shortest layout.tie
    let digits := Nat.toDigits 10 decimal.digits
    let power := decimal.exponent + digits.length - 1
    sign ++
      if layout.positionalFrom ≤ power ∧ power < layout.positionalBelow then positional digits power
      else exponential layout digits power

/-- Numbers in messages: halves go up, positional from one ten-thousandth up to ten to the
sixteenth, and no sign on a positive exponent. -/
def messageLayout : Layout := ⟨.up, -4, 16, "e"⟩

/-- The text of a number in a message. -/
def messageText (x : Binary64) : String :=
  if x.isNaN then "NaN"
  else if x.isInfinite then if x.isNegative then "-inf" else "inf"
  else x.finiteText messageLayout

end Binary64
end TileBindery
