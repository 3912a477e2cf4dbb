import TileBindery.Bytes
import TileBindery.Text.Quoted

/-!
# Hexadecimal text

Two digits an octet, written in lowercase and read in either case.
-/

namespace TileBindery
namespace Hex

/-- The lowercase digit of a number below sixteen. -/
def digit (n : Nat) : Char := Nat.digitChar n

/-- The value of a digit of either case, given as an octet of text. -/
def digitValue? (octet : UInt8) : Option Nat :=
  let n := octet.toNat
  if 48 ≤ n ∧ n ≤ 57 then some (n - 48)
  else if 97 ≤ n ∧ n ≤ 102 then some (n - 87)
  else if 65 ≤ n ∧ n ≤ 70 then some (n - 55)
  else none

def encode (octets : Bytes) : List Char :=
  octets.flatMap fun octet => [digit (octet.toNat / 16), digit (octet.toNat % 16)]

/-- Reasons why a text is not hexadecimal. -/
inductive Fault where
  /-- The text has an odd number of octets. -/
  | oddLength
  /-- An octet of the text is no digit. -/
  | badDigit (octet : UInt8) (position : Nat)
  deriving DecidableEq, Repr

/-- The wording of a fault.  An octet is shown as the character of its code point. -/
def Fault.message : Fault → String
  | .oddLength => "Odd number of digits"
  | .badDigit octet position =>
      "Invalid character " ++ Text.quotedChar (Char.ofNat octet.toNat) ++ " at position " ++
        toString position

/-- The octets of pairs of digits that start at `position`. -/
def decodePairs (position : Nat) : Bytes → Except Fault Bytes
  | [] => .ok []
  | [_] => .error .oddLength
  | high :: low :: rest =>
      match digitValue? high, digitValue? low with
      | none, _ => .error (.badDigit high position)
      | some _, none => .error (.badDigit low (position + 1))
      | some h, some l => (decodePairs (position + 2) rest).map (UInt8.ofNat (16 * h + l) :: ·)

/-- The octets that a text, given by its own octets, writes down.  An odd length is reported before
any bad digit. -/
def decode (text : Bytes) : Except Fault Bytes :=
  if text.length % 2 = 1 then .error .oddLength else decodePairs 0 text

end Hex
end TileBindery
