import TileBindery.Settings.Basic
import TileBindery.Toml.Reader
import TileBindery.Toml.Writer

/-!
# Settings as TOML

Fields are written in a fixed order, absent ones are left out.  Fields are read in any order, and a
missing one takes its usual value; unknown ones are refused.
-/

namespace TileBindery

namespace SortSettings

/-- Names of the fields, in the order in which they are written. -/
def fieldNames : List String := ["chunk_bytes", "chunk_features", "compress"]

def ofTomlValue? (value : TomlValue) : Option SortSettings :=
  match value.fields? fieldNames with
  | some [chunkBytes, chunkFeatures, compress] => do
      let chunkBytes ← TomlValue.optional TomlValue.natural? chunkBytes
      let chunkFeatures ← TomlValue.optional TomlValue.natural? chunkFeatures
      let compress ← TomlValue.orElse TomlValue.bool? false compress
      return ⟨chunkBytes, chunkFeatures, compress⟩
  | _ => none

/-- The TOML text of sort settings. -/
def toToml (sort : SortSettings) : List Char :=
  TomlWriter.optionalEntry "chunk_bytes" TomlWriter.natural sort.chunkBytes ++
    TomlWriter.optionalEntry "chunk_features" TomlWriter.natural sort.chunkFeatures ++
    TomlWriter.entry "compress" (TomlWriter.bool sort.compress)

end SortSettings

namespace OutputSettings

/-- Names of the fields, in the order in which they are written. -/
def fieldNames : List String :=
  ["format", "shards", "append", "column_separator", "line_separator", "binary_encoding"]

def ofTomlValue? (value : TomlValue) : Option OutputSettings :=
  match value.fields? fieldNames with
  | some [format, shards, append, columnSeparator, lineSeparator, binaryEncoding] => do
      let format ← TomlValue.orElse TomlValue.text? standard.format format
      let shards ← TomlValue.orElse TomlValue.natural? standard.shards shards
      let append ← TomlValue.orElse TomlValue.bool? standard.append append
      let columnSeparator ← TomlValue.optional TomlValue.text? columnSeparator
      let lineSeparator ← TomlValue.optional TomlValue.text? lineSeparator
      let binaryEncoding ← TomlValue.orElse TomlValue.text? standard.binaryEncoding binaryEncoding
      return ⟨format, shards, append, columnSeparator, lineSeparator, binaryEncoding⟩
  | _ => none

/-- The TOML text of output settings. -/
def toToml (output : OutputSettings) : List Char :=
  TomlWriter.entry "format" (TomlWriter.string output.format) ++
    TomlWriter.entry "shards" (TomlWriter.natural output.shards) ++
    TomlWriter.entry "append" (TomlWriter.bool output.append) ++
    TomlWriter.optionalEntry "column_separator" TomlWriter.string output.columnSeparator ++
    TomlWriter.optionalEntry "line_separator" TomlWriter.string output.lineSeparator ++
    TomlWriter.entry "binary_encoding" (TomlWriter.string output.binaryEncoding)

end OutputSettings

namespace Settings

/-- Names of the fields, in the order in which they are written. -/
def fieldNames : List String :=
  ["tmp_dir", "threads", "force_overwrite", "render_batch_size", "emit_empty_tiles", "sort",
    "output"]

/-- The settings of a TOML value on a machine with a number of cores. -/
def ofTomlValue? (cores : Nat) (value : TomlValue) : Option Settings :=
  match value.fields? fieldNames with
  | some [workspace, threads, forceOverwrite, batchSize, emitEmptyTiles, sort, output] => do
      let usual := standard cores
      let workspace ← TomlValue.orElse TomlValue.text? usual.workspace workspace
      let threads ← TomlValue.orElse TomlValue.natural? usual.threads threads
      let forceOverwrite ← TomlValue.orElse TomlValue.bool? usual.forceOverwrite forceOverwrite
      let batchSize ← TomlValue.orElse TomlValue.natural? usual.batchSize batchSize
      let emitEmptyTiles ← TomlValue.orElse TomlValue.bool? usual.emitEmptyTiles emitEmptyTiles
      let sort ← TomlValue.orElse SortSettings.ofTomlValue? usual.sort sort
      let output ← TomlValue.orElse OutputSettings.ofTomlValue? usual.output output
      return ⟨workspace, threads, forceOverwrite, batchSize, emitEmptyTiles, sort, output⟩
  | _ => none

/-- Read and check settings on a machine with a number of cores. -/
def ofToml (cores : Nat) (text : List Char) : Except SettingsError Settings := do
  match (TomlReader.parse text).bind (ofTomlValue? cores) with
  | none => throw .malformed
  | some settings =>
      settings.check
      return settings

def numbers (settings : Settings) : List Nat :=
  [settings.threads, settings.batchSize] ++ settings.sort.chunkBytes.toList ++
    settings.sort.chunkFeatures.toList ++ [settings.output.shards]

/-- The TOML text of settings whose numbers it can hold. -/
def toTomlText (settings : Settings) : List Char :=
  TomlWriter.entry "tmp_dir" (TomlWriter.string settings.workspace) ++
    TomlWriter.entry "threads" (TomlWriter.natural settings.threads) ++
    TomlWriter.entry "force_overwrite" (TomlWriter.bool settings.forceOverwrite) ++
    TomlWriter.entry "render_batch_size" (TomlWriter.natural settings.batchSize) ++
    TomlWriter.entry "emit_empty_tiles" (TomlWriter.bool settings.emitEmptyTiles) ++
    TomlWriter.header "sort" ++ settings.sort.toToml ++
    TomlWriter.header "output" ++ settings.output.toToml

def toToml (settings : Settings) : Except SettingsError (List Char) :=
  if settings.numbers.any (TomlValue.maxInteger < ·) then .error .unwritableNumber
  else .ok settings.toTomlText

/-- A text with the usual settings, explained. -/
def sample : String :=
  "# Settings of a build
#
# Directory in which every build creates a directory for its temporary files
tmp_dir = \"data/tmp\"

# Threads that sort and render (one for each core when left out)
# threads = 4

# Replace an output that exists
force_overwrite = false

# Tiles that are rendered at once
render_batch_size = 256

# Write tiles without data
emit_empty_tiles = false

[sort]
# Size of a chunk; an eighth of the input when left out,
# but at least 16 MiB and at most 1 GiB
# chunk_bytes = 268435456
# chunk_features = 1000000
compress = false

[output]
format = \"csv\"             # csv, tsv or proto
shards = 1
append = false
# column_separator = \",\"
# line_separator = \"\\n\"
binary_encoding = \"base64\" # none, base64 or hex
"

end Settings
end TileBindery
