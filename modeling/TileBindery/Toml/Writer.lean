import TileBindery.Toml.Value

/-!
# Writing TOML

Values stand on lines of their own behind their names.  A string is written in the first form that
needs no escapes, and between double quotes with escapes if there is none; a form of several lines
begins with a line break if the string has one.
-/

namespace TileBindery
namespace TomlWriter

/-- A control character that only an escape can write. -/
def isControl (c : Char) : Bool := (c.toNat < 32 && c ≠ '\t' && c ≠ '\n') || c.toNat = 127

/-- Three of a quote stand in a row. -/
def hasTriple (quote : Char) : List Char → Bool
  | a :: b :: c :: rest =>
      (a = quote && b = quote && c = quote) || hasTriple quote (b :: c :: rest)
  | _ => false

inductive StringForm where
  /-- Between double quotes, with escapes. -/
  | quoted
  /-- Between single quotes, without escapes. -/
  | literal
  /-- Between three double quotes, with escapes. -/
  | quotedLines
  /-- Between three single quotes, without escapes. -/
  | literalLines
  deriving DecidableEq, Repr

/-- The form in which a string is written. -/
def formOf (text : List Char) : StringForm :=
  let control := text.any isControl
  let newline := text.contains '\n'
  if ¬control ∧ ¬newline ∧ ¬text.contains '\\' ∧ ¬text.contains '"' then .quoted
  else if ¬control ∧ ¬newline ∧ ¬text.contains '\'' then .literal
  else if ¬control ∧ ¬text.contains '\\' ∧ ¬hasTriple '"' text then .quotedLines
  else if ¬control ∧ ¬hasTriple '\'' text then .literalLines
  else if newline then .quotedLines
  else .quoted

/-- The hexadecimal digit of a number below sixteen. -/
def hexDigit (n : Nat) : Char := (Nat.digitChar n).toUpper

/-- A character between double quotes, a line break and quotes apart. -/
def escape (c : Char) : List Char :=
  if c = '\\' then ['\\', '\\']
  else if c = '\t' then ['\\', 't']
  else if c = '\x08' then ['\\', 'b']
  else if c = '\x0c' then ['\\', 'f']
  else if c = '\r' then ['\\', 'r']
  else if isControl c then ['\\', 'u', '0', '0', hexDigit (c.toNat / 16), hexDigit (c.toNat % 16)]
  else [c]

/-- A character between double quotes. -/
def escapeInLine (c : Char) : List Char :=
  if c = '"' then ['\\', '"'] else if c = '\n' then ['\\', 'n'] else escape c

/-- Characters between three double quotes, behind `count` quotes in a row.  Of three quotes in a
row the last is escaped. -/
def escapeLines (count : Nat) : List Char → List Char
  | [] => []
  | c :: rest =>
      if c = '"' then
        if count < 2 then '"' :: escapeLines (count + 1) rest
        else '\\' :: '"' :: escapeLines 0 rest
      else escape c ++ escapeLines 0 rest

/-- The line break with which a form of several lines begins. -/
def openingBreak (text : List Char) : List Char := if text.contains '\n' then ['\n'] else []

def string (value : String) : List Char :=
  let text := value.toList
  match formOf text with
  | .quoted => '"' :: text.flatMap escapeInLine ++ ['"']
  | .literal => '\'' :: text ++ ['\'']
  | .quotedLines => ['"', '"', '"'] ++ openingBreak text ++ escapeLines 0 text ++ ['"', '"', '"']
  | .literalLines => ['\'', '\'', '\''] ++ openingBreak text ++ text ++ ['\'', '\'', '\'']

def natural (n : Nat) : List Char := Nat.toDigits 10 n

def bool (value : Bool) : List Char := if value then "true".toList else "false".toList

def entry (name : String) (value : List Char) : List Char :=
  name.toList ++ " = ".toList ++ value ++ ['\n']

/-- A line with a named value, or nothing if the value is absent. -/
def optionalEntry {α : Type} (name : String) (value : α → List Char) : Option α → List Char
  | none => []
  | some item => entry name (value item)

/-- A blank line and the header of a table. -/
def header (name : String) : List Char := '\n' :: '[' :: name.toList ++ [']', '\n']

end TomlWriter
end TileBindery
