import TileBindery.Device
import TileBindery.Text.Quoted
import TileBindery.Tile

/-!
# Sorting errors

What goes wrong while features are sorted and grouped, with its wording.  Every error ends the run
it occurs in.
-/

namespace TileBindery

/-- Reasons why a sorter's settings make no sense. -/
inductive SpillConfigError where
  | zeroChunkBytes
  | zeroChunkFeatures
  | zeroThreads
  /-- A compression level that does not exist. -/
  | compressionLevel (level : Int)
  deriving DecidableEq, Repr

/-- The wording of a settings error. -/
def SpillConfigError.message : SpillConfigError → String
  | .zeroChunkBytes => "Chunk size must be at least 1 byte"
  | .zeroChunkFeatures => "Chunk feature limit must be at least 1"
  | .zeroThreads => "Sort threads must be at least 1"
  | .compressionLevel level => "Compression level " ++ toString level ++ " outside 1..=22"

inductive Corruption where
  /-- A chunk file ends inside its header. -/
  | cutHeader (path : String)
  | foreignHeader (path : String) (version : Nat)
  /-- A chunk file ends in front of its last record. -/
  | cutRecords (path : String) (missing count : Nat)
  /-- A record differs from its check value. -/
  | checksum (path : String) (stored computed : UInt32)
  | tile (error : TileError)
  /-- Damage that a source of features describes itself. -/
  | reported (text : String)
  deriving DecidableEq, Repr

/-- The eight hexadecimal digits of a word. -/
def Corruption.wordText (word : UInt32) : String :=
  let digits := Text.hexDigits word.toNat
  "0x" ++ String.ofList (List.replicate (8 - digits.length) '0') ++ digits

/-- The wording of a kind of damage. -/
def Corruption.message : Corruption → String
  | .cutHeader path => path ++ ": truncated chunk header"
  | .foreignHeader path version =>
      path ++ ": invalid chunk magic or version " ++ toString version
  | .cutRecords path missing count =>
      path ++ ": truncated, " ++ toString missing ++ " of " ++ toString count ++ " records missing"
  | .checksum path stored computed =>
      path ++ ": checksum mismatch (stored " ++ wordText stored ++ ", computed " ++
        wordText computed ++ ")"
  | .tile error => error.message
  | .reported text => text

/-- Reasons why sorting or grouping fails. -/
inductive SortError where
  /-- A chunk file cannot be written or read. -/
  | device (error : DeviceError)
  | corruption (damage : Corruption)
  /-- The features have already been handed over. -/
  | alreadySorted
  /-- Features were lost when a chunk could not be written. -/
  | poisoned
  /-- A tile behind a tile that does not precede it. -/
  | outOfOrder (previous current : Nat)
  /-- A payload whose length does not fit a record. -/
  | featureTooLarge (size : Nat)
  /-- Settings that make no sense. -/
  | config (error : SpillConfigError)
  | tile (error : TileError)
  deriving DecidableEq, Repr

def SortError.message : SortError → String
  | .device error => "I/O error: " ++ error.message
  | .corruption damage => "Data corruption: " ++ damage.message
  | .alreadySorted => "Feature sorter already sorted; no further features may be added"
  | .poisoned => "Feature sorter failed on an earlier spill; its features are incomplete"
  | .outOfOrder previous current =>
      "Features out of order: tile " ++ toString current ++ " after tile " ++ toString previous
  | .featureTooLarge size =>
      "Feature payload of " ++ toString size ++ " bytes exceeds the chunk record limit"
  | .config error => "Invalid sorter config: " ++ error.message
  | .tile error => error.message

end TileBindery
