import TileBindery.Binary64.Decimal
import TileBindery.Toml.Text

/-!
# Numbers in TOML

Integers in four bases, and floats.  Any two digits may have an underscore between them.
-/

namespace TileBindery
namespace TomlReader

/-- The value of a digit in a base of at most sixteen. -/
def digitIn? (base : Nat) (c : Char) : Option Nat := (hexValue? c).filter (· < base)

/-- Take digits behind the digits `found`, which are given last first. -/
def digitsFrom (base : Nat) (found : List Nat) : List Char → Option (List Nat × List Char)
  | [] => some (found.reverse, [])
  | '_' :: rest =>
      match rest with
      | [] => none
      | c :: rest =>
          match digitIn? base c with
          | none => none
          | some digit => digitsFrom base (digit :: found) rest
  | c :: rest =>
      match digitIn? base c with
      | none => some (found.reverse, c :: rest)
      | some digit => digitsFrom base (digit :: found) rest

def someDigits (base : Nat) : List Char → Option (List Nat × List Char)
  | [] => none
  | c :: rest => (digitIn? base c).bind fun digit => digitsFrom base [digit] rest

/-- Take digits in base ten, among which a zero in front stands alone. -/
def wholeDigits : List Char → Option (List Nat × List Char)
  | '0' :: rest => some ([0], rest)
  | text => someDigits 10 text

/-- Take a sign, if there is one: whether it is a minus. -/
def sign : List Char → Bool × List Char
  | '-' :: rest => (true, rest)
  | '+' :: rest => (false, rest)
  | text => (false, text)

/-- Take an integer that is written in a base. -/
def natural (base : Nat) (text : List Char) : Option (Int × List Char) :=
  (someDigits base text).map fun (digits, rest) => ((Digits.value base digits : Int), rest)

def integer : List Char → Option (Int × List Char)
  | '0' :: 'x' :: rest => natural 16 rest
  | '0' :: 'o' :: rest => natural 8 rest
  | '0' :: 'b' :: rest => natural 2 rest
  | text =>
      let (negative, text) := sign text
      (wholeDigits text).map fun (digits, rest) => (Decimal.signedPower negative digits, rest)

/-- Take a point and digits, if there is a point. -/
def fraction : List Char → Option (Option (List Nat) × List Char)
  | '.' :: rest => (someDigits 10 rest).map fun (digits, rest) => (some digits, rest)
  | text => some (none, text)

/-- Take an exponent, if there is one. -/
def exponent : List Char → Option (Option Int × List Char)
  | 'e' :: rest | 'E' :: rest =>
      let (negative, rest) := sign rest
      (someDigits 10 rest).map fun (digits, rest) =>
        (some (Decimal.signedPower negative digits), rest)
  | text => some (none, text)

/-- Take a float behind its sign that is written with digits.  It has a fraction, an exponent or
both, and what is positive is not beyond the largest double. -/
def finite (negative : Bool) (text : List Char) : Option (Binary64 × List Char) := do
  let (whole, text) ← wholeDigits text
  let (behindPoint, text) ← fraction text
  let (power, text) ← exponent text
  if behindPoint.isNone ∧ power.isNone then none
  else
    let decimal := Decimal.ofParts whole (behindPoint.getD []) (power.getD 0)
    let magnitude := decimal.nearestMagnitude
    if magnitude = Binary64.infinityMagnitude ∧ ¬negative then none
    else return (.ofMagnitude negative magnitude, text)

def float (text : List Char) : Option (Binary64 × List Char) :=
  match sign text with
  | (negative, 'i' :: 'n' :: 'f' :: rest) =>
      some (.ofMagnitude negative Binary64.infinityMagnitude, rest)
  | (negative, 'n' :: 'a' :: 'n' :: rest) =>
      some (.ofMagnitude negative (Binary64.infinityMagnitude + 2 ^ 51), rest)
  | (negative, rest) => finite negative rest

end TomlReader
end TileBindery
