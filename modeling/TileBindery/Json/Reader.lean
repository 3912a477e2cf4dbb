import TileBindery.Json.Value

/-!
# Reading JSON

The reader follows the grammar of JSON.  Every part takes the characters in front of it and leaves
the rest; the fuel of nested parts is the length of the whole text.
-/

namespace TileBindery
namespace JsonReader

def skipBlank : List Char → List Char
  | [] => []
  | c :: rest =>
      if c = ' ' ∨ c = '\n' ∨ c = '\t' ∨ c = '\r' then skipBlank rest else c :: rest

/-- The value of a hexadecimal digit of either case. -/
def hexValue? (c : Char) : Option Nat :=
  let n := c.toNat
  if 48 ≤ n ∧ n ≤ 57 then some (n - 48)
  else if 97 ≤ n ∧ n ≤ 102 then some (n - 87)
  else if 65 ≤ n ∧ n ≤ 70 then some (n - 55)
  else none

inductive Piece where
  /-- A character, as itself or by a short escape. -/
  | char (c : Char)
  /-- A 16-bit unit, by its number. -/
  | unit (value : Nat)
  deriving DecidableEq, Repr

def shortEscape? : Char → Option Char
  | '"' => some '"'
  | '\\' => some '\\'
  | '/' => some '/'
  | 'b' => some '\x08'
  | 'f' => some '\x0c'
  | 'n' => some '\n'
  | 'r' => some '\r'
  | 't' => some '\t'
  | _ => none

/-- The 16-bit unit of four hexadecimal digits. -/
def unit? (a b c d : Char) : Option Nat := do
  let a ← hexValue? a
  let b ← hexValue? b
  let c ← hexValue? c
  let d ← hexValue? d
  return ((a * 16 + b) * 16 + c) * 16 + d

/-- Read the parts of a string up to the closing quote. -/
def pieces : List Char → Option (List Piece × List Char)
  | [] => none
  | '"' :: rest => some ([], rest)
  | '\\' :: 'u' :: a :: b :: c :: d :: rest => do
      let unit ← unit? a b c d
      let (more, rest) ← pieces rest
      return (.unit unit :: more, rest)
  | '\\' :: letter :: rest => do
      let c ← shortEscape? letter
      let (more, rest) ← pieces rest
      return (.char c :: more, rest)
  | c :: rest =>
      if c.toNat < 32 ∨ c = '\\' then none
      else do
        let (more, rest) ← pieces rest
        return (.char c :: more, rest)

/-- The first unit of a surrogate pair. -/
def isHigh (unit : Nat) : Bool := 0xD800 ≤ unit && unit < 0xDC00

/-- The second unit of a surrogate pair. -/
def isLow (unit : Nat) : Bool := 0xDC00 ≤ unit && unit < 0xE000

/-- The text of string parts, if its units spell characters. -/
def assemble : List Piece → Option (List Char)
  | [] => some []
  | .char c :: rest => (assemble rest).map (c :: ·)
  | .unit high :: .unit low :: rest =>
      if isHigh high then
        if isLow low then
          (assemble rest).map
            (Char.ofNat (0x10000 + (high - 0xD800) * 0x400 + (low - 0xDC00)) :: ·)
        else none
      else if isLow high then none
      else (assemble (.unit low :: rest)).map (Char.ofNat high :: ·)
  | .unit value :: rest =>
      if isHigh value || isLow value then none
      else (assemble rest).map (Char.ofNat value :: ·)

/-- Read a string behind its opening quote. -/
def string (text : List Char) : Option (Option (List Char) × List Char) :=
  (pieces text).map fun (parts, rest) => (assemble parts, rest)

/-- Read digits as long as there are any. -/
def digits : List Char → List Nat × List Char
  | [] => ([], [])
  | c :: rest =>
      if c.isDigit then
        let (more, behind) := digits rest
        ((c.toNat - 48) :: more, behind)
      else ([], c :: rest)

def someDigits (text : List Char) : Option (List Nat × List Char) :=
  match digits text with
  | ([], _) => none
  | found => some found

/-- Read the digits in front of the point.  A zero stands alone. -/
def integerPart (text : List Char) : Option (List Nat × List Char) :=
  match digits text with
  | ([], _) => none
  | ([0], rest) => some ([0], rest)
  | (0 :: _, _) => none
  | found => some found

/-- Read a point and digits, if there is a point. -/
def fractionPart : List Char → Option (Option (List Nat) × List Char)
  | '.' :: rest => (someDigits rest).map fun (found, rest) => (some found, rest)
  | text => some (none, text)

def exponentSign : List Char → Bool × List Char
  | '-' :: rest => (true, rest)
  | '+' :: rest => (false, rest)
  | text => (false, text)

def exponentPart (text : List Char) : Option (Option (Bool × List Nat) × List Char) :=
  match text with
  | [] => some (none, [])
  | c :: rest =>
      if c = 'e' ∨ c = 'E' then
        let (negative, rest) := exponentSign rest
        (someDigits rest).map fun (found, rest) => (some (negative, found), rest)
      else some (none, text)

def unsigned (negative : Bool) (text : List Char) : Option (JsonNumber × List Char) := do
  let (integer, text) ← integerPart text
  let (fraction, text) ← fractionPart text
  let (exponent, text) ← exponentPart text
  return (⟨negative, integer, fraction, exponent⟩, text)

def number : List Char → Option (JsonNumber × List Char)
  | '-' :: rest => unsigned true rest
  | text => unsigned false text

/-- Read items with commas between them up to a closing mark. -/
def listed {α : Type} (close : Char) (item : List Char → Option (α × List Char)) :
    (fuel : Nat) → List Char → Option (List α × List Char)
  | 0, _ => none
  | fuel + 1, text => do
      let (first, rest) ← item text
      match skipBlank rest with
      | [] => none
      | c :: rest =>
          if c = ',' then do
            let (more, rest) ← listed close item fuel rest
            return (first :: more, rest)
          else if c = close then return ([first], rest)
          else none

/-- Read a member: a name, a colon and a value. -/
def member (value : List Char → Option (JsonValue × List Char)) (text : List Char) :
    Option ((Option (List Char) × JsonValue) × List Char) :=
  match skipBlank text with
  | '"' :: rest => do
      let (name, rest) ← string rest
      match skipBlank rest with
      | ':' :: rest => do
          let (found, rest) ← value rest
          return ((name, found), rest)
      | _ => none
  | _ => none

def value : (fuel : Nat) → List Char → Option (JsonValue × List Char)
  | 0, _ => none
  | fuel + 1, text =>
      match skipBlank text with
      | 'n' :: 'u' :: 'l' :: 'l' :: rest => some (.null, rest)
      | 't' :: 'r' :: 'u' :: 'e' :: rest => some (.bool true, rest)
      | 'f' :: 'a' :: 'l' :: 's' :: 'e' :: rest => some (.bool false, rest)
      | '"' :: rest => (string rest).map fun (found, rest) => (.string found, rest)
      | '[' :: rest =>
          match skipBlank rest with
          | ']' :: rest => some (.array [], rest)
          | rest =>
              (listed ']' (value fuel) fuel rest).map fun (items, rest) => (.array items, rest)
      | '{' :: rest =>
          match skipBlank rest with
          | '}' :: rest => some (.object [], rest)
          | rest =>
              (listed '}' (member (value fuel)) fuel rest).map fun (members, rest) =>
                (.object members, rest)
      | text => (number text).map fun (found, rest) => (.number found, rest)

/-- Read a whole text, which holds one value and blanks. -/
def parse (text : List Char) : Option JsonValue :=
  match value (text.length + 1) text with
  | some (found, rest) => if (skipBlank rest).isEmpty then some found else none
  | none => none

end JsonReader
end TileBindery
