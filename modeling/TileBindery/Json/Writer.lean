import TileBindery.Text.Hex

/-!
# Writing JSON

Values are written without blanks.  In strings the quote, the backslash and the control characters
are escaped, by a letter where there is one.
-/

namespace TileBindery
namespace JsonWriter

def escape (c : Char) : List Char :=
  if c = '"' then ['\\', '"']
  else if c = '\\' then ['\\', '\\']
  else if c = '\x08' then ['\\', 'b']
  else if c = '\x0c' then ['\\', 'f']
  else if c = '\n' then ['\\', 'n']
  else if c = '\r' then ['\\', 'r']
  else if c = '\t' then ['\\', 't']
  else if c.toNat < 32 then
    ['\\', 'u', '0', '0', Hex.digit (c.toNat / 16), Hex.digit (c.toNat % 16)]
  else [c]

def string (text : String) : List Char := '"' :: text.toList.flatMap escape ++ ['"']

def integer (n : Int) : List Char :=
  if n < 0 then '-' :: Nat.toDigits 10 n.natAbs else Nat.toDigits 10 n.natAbs

/-- Items with commas between them. -/
def joined : List (List Char) → List Char
  | [] => []
  | [item] => item
  | item :: rest => item ++ ',' :: joined rest

def array (items : List (List Char)) : List Char := '[' :: joined items ++ [']']

def member (name : String) (value : List Char) : List Char := string name ++ ':' :: value

/-- A member that is left out when its value is absent. -/
def optionalMember {α : Type} (name : String) (value : α → List Char) :
    Option α → List (List Char)
  | none => []
  | some item => [member name (value item)]

def object (members : List (List Char)) : List Char := '{' :: joined members ++ ['}']

end JsonWriter
end TileBindery
