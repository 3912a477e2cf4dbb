import TileBindery.Archive.Routing
import TileBindery.Archive.Shard
import TileBindery.Disk.Outlet

/-!
# Archive writers

A writer spreads tiles over the shards of an archive.  Header and footer go to every shard, so each
shard is a complete stream, also one that no tile is routed to.
-/

namespace TileBindery

/-- The shards of an archive that is being written. -/
structure ArchiveWriter (σ η : Type) where
  shards : List (Shard σ η)
  tilesWritten : Nat

namespace ArchiveWriter

variable {σ η : Type}

/-- The result of an operation with the writer and the world it leaves behind. -/
abbrev Outcome (σ η α : Type) := Except ArchiveError α × ArchiveWriter σ η × σ

/-- A writer over shards, of which there has to be one at least. -/
def ofShards (shards : List (Shard σ η)) : Except ArchiveError (ArchiveWriter σ η) :=
  if shards.isEmpty then .error (.badOption .shards "0") else .ok ⟨shards, 0⟩

/-- A writer over fresh shards with the given destinations. -/
def ofOutlets (config : ArchiveConfig) (outlet : Nat → Outlet σ η) :
    Except ArchiveError (ArchiveWriter σ η) :=
  ofShards ((List.range config.shards).map fun index => .ofOutlet index config (outlet index))

/-- Apply an operation to shards in order, up to the first that fails. -/
def forShards {α : Type} (operation : Shard σ η → σ → Shard.Outcome σ η α) :
    List (Shard σ η) → σ → Except ArchiveError (List α) × List (Shard σ η) × σ
  | [], world => (.ok [], [], world)
  | shard :: rest, world =>
      match operation shard world with
      | (.error error, shard, world) => (.error error, shard :: rest, world)
      | (.ok value, shard, world) =>
          let (result, rest, world) := forShards operation rest world
          (result.map (value :: ·), shard :: rest, world)

/-- Write the header of every shard. -/
def begin (writer : ArchiveWriter σ η) (metadata : Metadata) (world : σ) : Outcome σ η Unit :=
  let (result, shards, world) := forShards (·.begin metadata) writer.shards world
  (result.map fun _ => (), { writer with shards }, world)

def write (writer : ArchiveWriter σ η) (tile : Tile) (data : Option Bytes) (world : σ) :
    Outcome σ η Unit :=
  let index := Routing.shardOf tile.id writer.shards.length
  match writer.shards[index]? with
  | none => (.error (.badOption .shards "0"), writer, world)
  | some shard =>
      match shard.write tile data world with
      | (.error error, shard, world) =>
          (.error error, { writer with shards := writer.shards.set index shard }, world)
      | (.ok (), shard, world) =>
          (.ok (), ⟨writer.shards.set index shard, writer.tilesWritten + 1⟩, world)

/-- Write the footer of every shard.  Gives what held the destinations. -/
def finish (writer : ArchiveWriter σ η) (metadata : Metadata) (world : σ) :
    Outcome σ η (List η) :=
  let (result, shards, world) := forShards (·.finish metadata) writer.shards world
  (result, { writer with shards }, world)

/-- Release every destination that is still open. -/
def release (writer : ArchiveWriter σ η) (world : σ) : σ :=
  writer.shards.foldl (fun world shard => (shard.release world).2) world

/-- Create the directory above a path unless something stands there. -/
def ensureParent (path : Path) (disk : Disk) : Except DeviceError Unit × Disk :=
  match path.parent? with
  | none => (.ok (), disk)
  | some parent => if disk.holds parent then (.ok (), disk) else disk.makeDirectories parent

/-- A writer of files.  The directory above the archive's path is created if it is missing; the
files are created by the first operation that needs them. -/
def ofPath (path : String) (config : ArchiveConfig) (disk : Disk) :
    Except ArchiveError (ArchiveWriter Disk OpenFile) × Disk :=
  match config.check with
  | .error error => (.error error, disk)
  | .ok () =>
      match ensureParent (Path.ofText path) disk with
      | (.error error, disk) => (.error (.device error), disk)
      | (.ok (), disk) =>
          (ofOutlets config fun index => Disk.outlet config.append (Routing.shardPath path index),
            disk)

end ArchiveWriter
end TileBindery
