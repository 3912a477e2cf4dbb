import TileBindery.Spill.Merge

/-!
# The sorter

Features are collected in memory until the buffer is full, then sorted and moved to a chunk file.
Sorting hands everything over to a merge, once.  When a chunk cannot be written its features are
lost, and the sorter refuses all further work.
-/

namespace TileBindery

inductive SorterPhase where
  | collecting
  /-- Features have been handed over to a merge. -/
  | handedOver
  /-- A chunk could not be written. -/
  | poisoned
  deriving DecidableEq, Repr

structure SortCounters where
  featuresAdded : Nat
  chunksSpilled : Nat
  /-- Octets of the chunk files written. -/
  bytesSpilled : Nat
  deriving DecidableEq, Repr

/-- A sorter that spills into a directory. -/
structure Sorter where
  /-- Directory of the chunk files. -/
  directory : String
  config : SpillConfig
  /-- Features in memory, in order of arrival. -/
  buffer : Array Feature
  /-- Estimated size of the buffer. -/
  bufferBytes : Nat
  /-- Chunks written and not handed over. -/
  chunks : List Chunk
  nextChunk : Nat
  /-- Where the sorter is in its life. -/
  phase : SorterPhase
  counters : SortCounters
  deriving DecidableEq, Repr

namespace Sorter

/-- Estimated size of a feature besides its payload. -/
def featureOverhead : Nat := 32

def estimatedSize (feature : Feature) : Nat := feature.payload.length + featureOverhead

/-- Features in key order; equal keys keep their order. -/
def inKeyOrder (features : List Feature) : List Feature :=
  features.mergeSort fun a b => decide (a.key ≤ b.key)

def fresh (directory : String) (config : SpillConfig) : Sorter where
  directory := directory
  config := config
  buffer := #[]
  bufferBytes := 0
  chunks := []
  nextChunk := 0
  phase := .collecting
  counters := ⟨0, 0, 0⟩

/-- A sorter that spills into a directory, which is created if it is missing. -/
def create (directory : String) (config : SpillConfig) (disk : Disk) :
    Except SortError Sorter × Disk :=
  match config.check with
  | .error error => (.error (.config error), disk)
  | .ok () =>
      let (result, disk) := disk.makeDirectories (Path.ofText directory)
      match result with
      | .error error => (.error (.device error), disk)
      | .ok () => (.ok (fresh directory config), disk)

/-- The buffer has reached one of its limits. -/
def isFull (sorter : Sorter) : Bool :=
  sorter.config.chunkBytes ≤ sorter.bufferBytes ||
    sorter.config.chunkFeatures.any (· ≤ sorter.buffer.size)

/-- Move the buffer to a chunk file. -/
def spill [Codec] (sorter : Sorter) (disk : Disk) : Except SortError Unit × Sorter × Disk :=
  let features := inKeyOrder sorter.buffer.toList
  let emptied :=
    { sorter with buffer := #[], bufferBytes := 0, nextChunk := sorter.nextChunk + 1 }
  match Chunk.write sorter.directory sorter.nextChunk features sorter.config disk with
  | (.error error, disk) => (.error error, { emptied with phase := .poisoned }, disk)
  | (.ok chunk, disk) =>
      (.ok (),
        { emptied with
          chunks := sorter.chunks ++ [chunk]
          counters :=
            { sorter.counters with
              chunksSpilled := sorter.counters.chunksSpilled + 1
              bytesSpilled := sorter.counters.bytesSpilled + chunk.size } },
        disk)

def push (sorter : Sorter) (feature : Feature) : Sorter :=
  { sorter with
    buffer := sorter.buffer.push feature
    bufferBytes := sorter.bufferBytes + estimatedSize feature
    counters :=
      { sorter.counters with featuresAdded := sorter.counters.featuresAdded + 1 } }

/-- Accept a feature, and spill the buffer if that fills it. -/
def add [Codec] (sorter : Sorter) (feature : Feature) (disk : Disk) :
    Except SortError Unit × Sorter × Disk :=
  if ChunkRecord.maxPayload < feature.payload.length then
    (.error (.featureTooLarge feature.payload.length), sorter, disk)
  else
    match sorter.phase with
    | .poisoned => (.error .poisoned, sorter, disk)
    | .handedOver => (.error .alreadySorted, sorter, disk)
    | .collecting =>
        let sorter := sorter.push feature
        if sorter.isFull then sorter.spill disk else (.ok (), sorter, disk)

/-- Accept features up to the first that is refused.  Gives the number accepted. -/
def addAll [Codec] (sorter : Sorter) : List Feature → Disk →
    Nat × Except SortError Unit × Sorter × Disk
  | [], disk => (0, .ok (), sorter, disk)
  | feature :: rest, disk =>
      match sorter.add feature disk with
      | (.error error, sorter, disk) => (0, .error error, sorter, disk)
      | (.ok (), sorter, disk) =>
          let (count, result) := addAll sorter rest disk
          (count + 1, result)

/-- Hand all features over to a merge. -/
def sort [Codec] (sorter : Sorter) (disk : Disk) : Except SortError Merge × Sorter × Disk :=
  match sorter.phase with
  | .poisoned => (.error .poisoned, sorter, disk)
  | .handedOver => (.error .alreadySorted, sorter, disk)
  | .collecting =>
      let (result, disk) := Merge.ofRuns sorter.chunks (inKeyOrder sorter.buffer.toList) disk
      (result,
        { sorter with buffer := #[], bufferBytes := 0, chunks := [], phase := .handedOver },
        disk)

/-- Give the sorter up: remove the files of the chunks it still holds. -/
def discard (sorter : Sorter) (disk : Disk) : Disk := Chunk.dropAll sorter.chunks disk

end Sorter
end TileBindery
