import TileBindery.Archive.Options
import TileBindery.Settings.Error
import TileBindery.Spill.Config

/-!
# Settings of a build

Where a build keeps its temporary files, how much it does at once, and how features are sorted and
tiles archived.  The options of sorter and archive are derived from the settings, the size of the
sorter's chunks also from the size of the input.
-/

namespace TileBindery

structure SortSettings where
  /-- Size of a chunk; derived from the input when absent. -/
  chunkBytes : Option Nat
  /-- Number of features of a chunk, if it is limited. -/
  chunkFeatures : Option Nat
  compress : Bool
  deriving DecidableEq, Repr

/-- How tiles are archived, as it is written in a text of settings. -/
structure OutputSettings where
  format : String
  shards : Nat
  /-- Write behind what destinations hold. -/
  append : Bool
  /-- Text between columns, with escapes; the format's own when absent. -/
  columnSeparator : Option String
  /-- Text behind lines, with escapes; the format's own when absent. -/
  lineSeparator : Option String
  /-- Name of the encoding of tile data. -/
  binaryEncoding : String
  deriving DecidableEq, Repr

structure Settings where
  /-- Path of the directory that temporary directories are created in. -/
  workspace : String
  /-- Threads that sort and render. -/
  threads : Nat
  /-- Replace an output that exists. -/
  forceOverwrite : Bool
  /-- Tiles that are rendered at once. -/
  batchSize : Nat
  emitEmptyTiles : Bool
  sort : SortSettings
  output : OutputSettings
  deriving DecidableEq, Repr

namespace SortSettings

/-- Chunks without compression, their size derived from the input. -/
def standard : SortSettings := ⟨none, none, false⟩

end SortSettings

namespace OutputSettings

/-- One new file of lines with commas. -/
def standard : OutputSettings := ⟨"csv", 1, false, none, none, "base64"⟩

end OutputSettings

namespace Settings

/-- The settings of a machine with a number of cores. -/
def standard (cores : Nat) : Settings :=
  ⟨"data/tmp", cores, false, 256, false, .standard, .standard⟩

/-- Chunks and batches small enough for a test, and two threads. -/
def small (workspace : String) : Settings :=
  { standard 2 with
    workspace
    batchSize := 4
    sort := { SortSettings.standard with chunkBytes := some 4096 } }

/-- The smallest chunk whose size is derived from the input. -/
def minChunkBytes : Nat := 16 * 1024 * 1024

/-- The largest chunk whose size is derived from the input. -/
def maxChunkBytes : Nat := 1024 * 1024 * 1024

/-- The chunk size for an input: an eighth of it, within bounds. -/
def chunkBytesFor (inputSize : Nat) : Nat := max minChunkBytes (min (inputSize / 8) maxChunkBytes)

/-- The chunk size: the one that is set, or the one for the input, or the usual one. -/
def chunkBytes (settings : Settings) (inputSize : Option Nat) : Nat :=
  match settings.sort.chunkBytes with
  | some pinned => pinned
  | none => inputSize.elim SpillConfig.standard.chunkBytes chunkBytesFor

/-- Settings of the sorter for an input, if its size is known. -/
def spillConfig (settings : Settings) (inputSize : Option Nat) : SpillConfig :=
  { SpillConfig.standard with
    chunkBytes := settings.chunkBytes inputSize
    chunkFeatures := settings.sort.chunkFeatures
    compress := settings.sort.compress
    threads := max settings.threads 1 }

def separator (name : OptionName) (usual : String) : Option String → Except ArchiveError String
  | none => .ok usual
  | some text => Separator.ofOption name text

/-- Options of the archive, from the texts of the settings. -/
def archiveOptions (output : OutputSettings) : Except ArchiveError ArchiveConfig := do
  let format ← ArchiveFormat.ofName output.format
  let encoding ← BinaryEncoding.ofName output.binaryEncoding
  let usual := LineOptions.forFormat format
  let columnSeparator ← separator .columnSeparator usual.columnSeparator output.columnSeparator
  let lineSeparator ← separator .lineSeparator usual.lineSeparator output.lineSeparator
  return ⟨format, output.shards, output.append, ⟨columnSeparator, lineSeparator, encoding⟩⟩

/-- Options of the archive that make sense. -/
def archiveConfig (settings : Settings) : Except SettingsError ArchiveConfig :=
  Except.mapError .archive do
    let config ← archiveOptions settings.output
    config.check
    return config

def check (settings : Settings) : Except SettingsError Unit := do
  if settings.threads = 0 then throw .zeroThreads
  if settings.batchSize = 0 then throw .zeroBatch
  ((settings.spillConfig none).check).mapError .spill
  let _ ← settings.archiveConfig
  return ()

end Settings
end TileBindery
