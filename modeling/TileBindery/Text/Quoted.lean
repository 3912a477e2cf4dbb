import TileBindery.Text.Visible

/-!
# Quoted texts and characters

Messages show foreign text between quotes.  A hidden character is written by its code point, and a
few have short forms, so that the shown text is printable and unambiguous.
-/

namespace TileBindery
namespace Text

/-- Hexadecimal digits of a number, lowercase, without leading zeros. -/
def hexDigits (n : Nat) : String := String.ofList (Nat.toDigits 16 n)

/-- A character inside quotes that are written with `mark`. -/
def escaped (mark c : Char) : String :=
  if c = '\x00' then "\\0"
  else if c = '\t' then "\\t"
  else if c = '\n' then "\\n"
  else if c = '\r' then "\\r"
  else if c = '\\' ∨ c = mark then String.ofList ['\\', c]
  else if isVisible c then String.singleton c
  else "\\u\x7b" ++ hexDigits c.toNat ++ "\x7d"

def quoted (text : List Char) : String :=
  "\"" ++ String.join (text.map (escaped '"')) ++ "\""

/-- A character between single quotes. -/
def quotedChar (c : Char) : String := "'" ++ escaped '\'' c ++ "'"

end Text
end TileBindery
