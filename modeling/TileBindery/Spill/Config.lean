import TileBindery.Spill.Error

/-!
# Settings of a sorter

When buffered features are moved to disk, and how the files are written.
-/

namespace TileBindery

structure SpillConfig where
  /-- Estimated size of the buffer that ends a chunk. -/
  chunkBytes : Nat
  /-- Number of buffered features that ends a chunk, if there is such a limit. -/
  chunkFeatures : Option Nat
  /-- Compress the body of a chunk. -/
  compress : Bool
  level : Int
  /-- Threads that sort a chunk; they never change its order. -/
  threads : Nat
  deriving DecidableEq, Repr

namespace SpillConfig

/-- Chunks of 256 MiB, not compressed, sorted by one thread. -/
def standard : SpillConfig := ⟨268435456, none, false, 1, 1⟩

/-- Chunks of 4 KiB, small enough to spill in a test. -/
def small : SpillConfig := { standard with chunkBytes := 4096 }

/-- Every limit is at least one, and the compression level exists. -/
def check (config : SpillConfig) : Except SpillConfigError Unit :=
  if config.chunkBytes = 0 then .error .zeroChunkBytes
  else if config.chunkFeatures = some 0 then .error .zeroChunkFeatures
  else if config.threads = 0 then .error .zeroThreads
  else if config.level < 1 ∨ 22 < config.level then .error (.compressionLevel config.level)
  else .ok ()

end SpillConfig
end TileBindery
