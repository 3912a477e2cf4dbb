import TileBindery.Archive.Options
import TileBindery.Text.Separator

/-!
# Lines of a text archive

A tile is one line: column, row and zoom in decimal, then its data in a text encoding, with
separators between and a separator behind.  Nothing is quoted or escaped, so a line is read by
cutting it at the first three column separators.
-/

namespace TileBindery

/-- What a line says: a tile, and its data unless the column is empty. -/
structure LineRecord where
  tile : Tile
  data : Option Bytes
  deriving DecidableEq, Repr

namespace Line

/-- The decimal digits of a number. -/
def decimal (n : Nat) : List Char := Nat.toDigits 10 n

/-- The pieces of a tile's line, in the order in which they are handed to a destination. -/
def pieces (options : LineOptions) (tile : Tile) (data : Option Bytes) : List (List Char) :=
  let separator := options.columnSeparator.toList
  [decimal tile.x, separator, decimal tile.y, separator, decimal tile.z, separator,
    (data.map options.encoding.encode).getD [], options.lineSeparator.toList]

def ofTile (options : LineOptions) (tile : Tile) (data : Option Bytes) : List Char :=
  (pieces options tile data).flatten

/-- Cut a text at the first `count` occurrences of a separator. -/
def columns (separator : List Char) : (count : Nat) → List Char → List (List Char)
  | 0, text => [text]
  | count + 1, text =>
      match Separator.cut? separator text with
      | none => [text]
      | some (before, behind) => before :: columns separator count behind

/-- A text without `ending` at its end, if it stands there. -/
def dropEnding (ending text : List Char) : List Char :=
  if ending.isSuffixOf text then text.take (text.length - ending.length) else text

/-- The value of decimal digits, read from the left behind `value`, if it has 32 bits. -/
def digitsValue? (value : Nat) : List Char → Option Nat
  | [] => some value
  | c :: rest =>
      let longer := value * 10 + (c.toNat - 48)
      if c.isDigit ∧ longer < 2 ^ 32 then digitsValue? longer rest else none

/-- Read a number of 32 bits: an optional plus sign and at least one digit. -/
def number? (text : List Char) : Option Nat :=
  let digits := match text with
    | '+' :: rest => rest
    | _ => text
  if digits.isEmpty then none else digitsValue? 0 digits

def numberColumn (line : List Char) (column : NumberColumn) (text : Option (List Char)) :
    Except DecodeError Nat :=
  match text with
  | none => .error (.missingColumn column line)
  | some text =>
      match number? text with
      | none => .error (.badColumn column text)
      | some n => .ok n

/-- The tile and the data of a line, with or without the separator behind it. -/
def parse (options : LineOptions) (text : List Char) : Except DecodeError LineRecord := do
  let line := dropEnding options.lineSeparator.toList text
  let columns := columns options.columnSeparator.toList 3 line
  let x ← numberColumn line .x columns[0]?
  let y ← numberColumn line .y columns[1]?
  let z ← numberColumn line .z columns[2]?
  match columns[3]? with
  | none => .error (.missingData line)
  | some data =>
      if 255 < z then .error (.badZoom z)
      else
        match Tile.at? z x y with
        | .error error => .error (.tile error)
        | .ok tile =>
            if data.isEmpty then .ok ⟨tile, none⟩
            else
              let octets ← options.encoding.decode data
              .ok ⟨tile, some octets⟩

end Line
end TileBindery
