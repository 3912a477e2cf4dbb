import TileBindery.Device
import TileBindery.Text.Base64
import TileBindery.Text.Hex
import TileBindery.Text.Utf8
import TileBindery.Tile
import TileBindery.Wire.Basic

/-!
# Archive errors

What goes wrong while an archive is written or read, with its wording.
-/

namespace TileBindery

inductive ShardState where
  /-- The destination has not been opened. -/
  | unopened
  | accepting
  /-- The destination has been released. -/
  | closed
  deriving DecidableEq, Repr

/-- The name of a state in a message. -/
def ShardState.name : ShardState → String
  | .unopened => "unopened"
  | .accepting => "open"
  | .closed => "closed"

inductive ShardOperation where
  | acquire
  | begin
  | write
  | finish
  deriving DecidableEq, Repr

/-- The name of an operation in a message. -/
def ShardOperation.name : ShardOperation → String
  | .acquire => "open"
  | .begin => "initialize"
  | .write => "write"
  | .finish => "finish"

/-- The columns of a line that hold numbers. -/
inductive NumberColumn where
  | x
  | y
  | z
  deriving DecidableEq, Repr

def NumberColumn.name : NumberColumn → String
  | .x => "x"
  | .y => "y"
  | .z => "z"

/-- Reasons why archive contents cannot be read. -/
inductive DecodeError where
  /-- The stream ends inside the length of an entry. -/
  | cutLength
  /-- The length of an entry takes too many octets. -/
  | longLength
  /-- The length of an entry is out of bounds. -/
  | entryTooLarge (length : Nat)
  /-- The stream ends inside an entry. -/
  | cutEntry (length : Nat)
  | wire (fault : Wire.Fault)
  /-- A layer's attribute has a type that does not exist. -/
  | unknownFieldType (layer field : String) (code : Int32)
  | missingColumn (column : NumberColumn) (line : List Char)
  | badColumn (column : NumberColumn) (value : List Char)
  | missingData (line : List Char)
  /-- A zoom that does not fit an octet. -/
  | badZoom (zoom : Nat)
  /-- The numbers of a line name no tile. -/
  | tile (error : TileError)
  | lineNotText (fault : Utf8.Fault)
  | base64 (fault : Base64.Fault)
  /-- A data column is not hexadecimal. -/
  | hex (fault : Hex.Fault)
  deriving DecidableEq, Repr

def DecodeError.message : DecodeError → String
  | .cutLength => "stream ends inside a length prefix"
  | .longLength => "length prefix longer than 10 bytes"
  | .entryTooLarge length => "entry length " ++ toString length ++ " too large"
  | .cutEntry length => "stream ends inside a " ++ toString length ++ " byte entry"
  | .wire fault => fault.message
  | .unknownFieldType layer field code =>
      "layer " ++ layer ++ ": field " ++ field ++ " has unknown type " ++ toString code.toInt
  | .missingColumn column line =>
      "missing " ++ column.name ++ " column in " ++ Text.quoted line
  | .badColumn column value => "invalid " ++ column.name ++ " column " ++ Text.quoted value
  | .missingData line => "missing data column in " ++ Text.quoted line
  | .badZoom zoom => "invalid zoom " ++ toString zoom
  | .tile error => error.message
  | .lineNotText fault => "line is not UTF-8: " ++ fault.message
  | .base64 fault => "base64: " ++ fault.message
  | .hex fault => "hex: " ++ fault.message

/-- Options of an archive, as messages name them. -/
inductive OptionName where
  | format
  /-- Encoding of tile data in lines. -/
  | binaryEncoding
  | columnSeparator
  | lineSeparator
  | shards
  deriving DecidableEq, Repr

/-- The name of an option in a message. -/
def OptionName.name : OptionName → String
  | .format => "format"
  | .binaryEncoding => "binary_encoding"
  | .columnSeparator => "column_separator"
  | .lineSeparator => "line_separator"
  | .shards => "shards"

/-- Reasons why an archive operation fails. -/
inductive ArchiveError where
  /-- The destination or source fails. -/
  | device (error : DeviceError)
  /-- The operation is not allowed in the shard's state. -/
  | state (shard : Nat) (operation : ShardOperation) (current : ShardState)
  | decode (error : DecodeError)
  /-- An option has no such value. -/
  | badOption (name : OptionName) (value : String)
  deriving DecidableEq, Repr

/-- The wording of an archive error. -/
def ArchiveError.message : ArchiveError → String
  | .device error => "IO error: " ++ error.message
  | .state shard operation current =>
      "Illegal archive state on shard " ++ toString shard ++ ": cannot " ++ operation.name ++
        " while " ++ current.name
  | .decode error => "Decode error: " ++ error.message
  | .badOption name value => "Invalid option " ++ name.name ++ ": " ++ value

end TileBindery
