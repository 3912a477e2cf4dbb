import TileBindery.Archive.Error

/-!
# Archive options

The format of an archive, how a text archive separates and encodes its columns, and over how many
shards it is spread.  Options come from configuration texts, so each has a reader beside its name.
-/

namespace TileBindery

/-- The format of an archive's entries. -/
inductive ArchiveFormat where
  /-- Lines with columns between commas. -/
  | csv
  /-- Lines with columns between tabs. -/
  | tsv
  /-- Tagged messages with their lengths in front. -/
  | proto
  deriving DecidableEq, Repr

namespace ArchiveFormat

def name : ArchiveFormat → String
  | .csv => "csv"
  | .tsv => "tsv"
  | .proto => "proto"

/-- Whether entries are lines of text. -/
def isText : ArchiveFormat → Bool
  | .proto => false
  | _ => true

/-- The format of a name, in letters of either case. -/
def ofName (text : String) : Except ArchiveError ArchiveFormat :=
  match String.ofList (text.toList.map Char.toLower) with
  | "csv" => .ok .csv
  | "tsv" => .ok .tsv
  | "proto" => .ok .proto
  | "pbf" => .ok .proto
  | "protobuf" => .ok .proto
  | _ => .error (.badOption .format text)

end ArchiveFormat

/-- How lines hold the octets of a tile. -/
inductive BinaryEncoding where
  /-- The octets themselves, read as UTF-8. -/
  | plain
  | base64
  | hex
  deriving DecidableEq, Repr

namespace BinaryEncoding

def name : BinaryEncoding → String
  | .plain => "none"
  | .base64 => "base64"
  | .hex => "hex"

/-- The encoding of a name, in letters of either case. -/
def ofName (text : String) : Except ArchiveError BinaryEncoding :=
  match String.ofList (text.toList.map Char.toLower) with
  | "none" => .ok .plain
  | "base64" => .ok .base64
  | "hex" => .ok .hex
  | _ => .error (.badOption .binaryEncoding text)

def encode : BinaryEncoding → Bytes → List Char
  | .plain, octets => Utf8.decodeLossy octets
  | .base64, octets => Base64.encode octets
  | .hex, octets => Hex.encode octets

def decode (encoding : BinaryEncoding) (text : List Char) : Except DecodeError Bytes :=
  match encoding with
  | .plain => .ok (Utf8.encode text)
  | .base64 => (Base64.decode (Utf8.encode text)).mapError .base64
  | .hex => (Hex.decode (Utf8.encode text)).mapError .hex

end BinaryEncoding

namespace Separator

/-- The character of an escape letter. -/
def escaped? : Char → Option Char
  | 't' => some '\t'
  | 'n' => some '\n'
  | 'r' => some '\r'
  | '\\' => some '\\'
  | _ => none

/-- Replace every backslash and the letter behind it by the character they stand for. -/
def expand : List Char → Option (List Char)
  | [] => some []
  | '\\' :: letter :: rest =>
      match escaped? letter with
      | some c => (expand rest).map (c :: ·)
      | none => none
  | c :: rest => if c = '\\' then none else (expand rest).map (c :: ·)

/-- Read the separator of an option.  It must not be empty. -/
def ofOption (name : OptionName) (text : String) : Except ArchiveError String :=
  match expand text.toList with
  | some (c :: rest) => .ok (String.ofList (c :: rest))
  | _ => .error (.badOption name text)

end Separator

structure LineOptions where
  columnSeparator : String
  lineSeparator : String
  encoding : BinaryEncoding
  deriving DecidableEq, Repr

namespace LineOptions

/-- The layout of lines with columns between commas. -/
def csv : LineOptions := ⟨",", "\n", .base64⟩

/-- The layout of lines with columns between tabs. -/
def tsv : LineOptions := { csv with columnSeparator := "\t" }

def forFormat : ArchiveFormat → LineOptions
  | .tsv => tsv
  | _ => csv

/-- Both separators have to be present and differ. -/
def check (options : LineOptions) : Except ArchiveError Unit :=
  if options.columnSeparator.isEmpty then .error (.badOption .columnSeparator "")
  else if options.lineSeparator.isEmpty ∨ options.lineSeparator = options.columnSeparator then
    .error (.badOption .lineSeparator options.lineSeparator)
  else .ok ()

end LineOptions

structure ArchiveConfig where
  format : ArchiveFormat
  shards : Nat
  /-- Keep what a destination holds and write behind it. -/
  append : Bool
  /-- Layout of lines, for the text formats. -/
  lines : LineOptions
  deriving DecidableEq, Repr

namespace ArchiveConfig

/-- One shard with the usual layout of a format. -/
def ofFormat (format : ArchiveFormat) : ArchiveConfig := ⟨format, 1, false, .forFormat format⟩

/-- At least one shard, and separators that can be told apart if the format has any. -/
def check (config : ArchiveConfig) : Except ArchiveError Unit :=
  if config.shards = 0 then .error (.badOption .shards "0")
  else if config.format.isText then config.lines.check
  else .ok ()

end ArchiveConfig
end TileBindery
