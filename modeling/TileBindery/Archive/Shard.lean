import TileBindery.Archive.Encoding
import TileBindery.Buffer

/-!
# Shards

A shard is one stream of an archive.  Its destination is opened by the first operation that needs
it, takes a header, tiles and a footer in this order, and is released by the footer.  A destination
that cannot be opened is not tried again.
-/

namespace TileBindery

/-- One stream of an archive in a world `σ`. -/
structure Shard (σ η : Type) where
  index : Nat
  config : ArchiveConfig
  outlet : Outlet σ η
  /-- Opening the destination has been tried. -/
  tried : Bool
  buffer : Option (WriteBuffer η)
  /-- Where the shard is in its life. -/
  state : ShardState
  tilesWritten : Nat

namespace Shard

variable {σ η : Type}

/-- Octets that wait in front of a shard's destination. -/
def capacity : Nat := 65536

/-- A shard that has not been used. -/
def ofOutlet (index : Nat) (config : ArchiveConfig) (outlet : Outlet σ η) : Shard σ η :=
  ⟨index, config, outlet, false, none, .unopened, 0⟩

def illegal (shard : Shard σ η) (operation : ShardOperation) : ArchiveError :=
  .state shard.index operation shard.state

/-- The result of an operation with the shard and the world it leaves behind. -/
abbrev Outcome (σ η α : Type) := Except ArchiveError α × Shard σ η × σ

def acquire (shard : Shard σ η) (world : σ) : Outcome σ η Unit :=
  if shard.tried then (.error (shard.illegal .acquire), shard, world)
  else
    match shard.outlet.acquire world with
    | (.error error, world) => (.error (.device error), { shard with tried := true }, world)
    | (.ok handle, world) =>
        (.ok (),
          { shard with tried := true, buffer := some (.ofHandle handle), state := .accepting },
          world)

/-- Open the destination unless it is open.  Without a header this is allowed only in formats that
have none. -/
def ensureOpen (shard : Shard σ η) (operation : ShardOperation) (world : σ) : Outcome σ η Unit :=
  match shard.state with
  | .accepting => (.ok (), shard, world)
  | .unopened =>
      if shard.config.requiresHeader then (.error (shard.illegal operation), shard, world)
      else shard.acquire world
  | .closed => (.error (shard.illegal operation), shard, world)

/-- Write pieces to the open destination. -/
def put (shard : Shard σ η) (pieces : List Bytes) (world : σ) : Outcome σ η Unit :=
  match shard.buffer with
  | none => (.error (shard.illegal .write), shard, world)
  | some buffer =>
      let (result, buffer, world) := buffer.writeAll shard.outlet capacity pieces world
      (result.mapError .device, { shard with buffer := some buffer }, world)

/-- Open the destination and write the header. -/
def begin (shard : Shard σ η) (metadata : Metadata) (world : σ) : Outcome σ η Unit :=
  if shard.state ≠ .unopened then (.error (shard.illegal .begin), shard, world)
  else
    match shard.acquire world with
    | (.error error, shard, world) => (.error error, shard, world)
    | (.ok (), shard, world) => shard.put (shard.config.headerPieces metadata) world

def write (shard : Shard σ η) (tile : Tile) (data : Option Bytes) (world : σ) :
    Outcome σ η Unit :=
  match shard.ensureOpen .write world with
  | (.error error, shard, world) => (.error error, shard, world)
  | (.ok (), shard, world) =>
      match shard.put (shard.config.tilePieces tile data) world with
      | (.error error, shard, world) => (.error error, shard, world)
      | (.ok (), shard, world) =>
          (.ok (), { shard with tilesWritten := shard.tilesWritten + 1 }, world)

/-- Let go of the destination, after a last attempt to hand over what waits. -/
def release (shard : Shard σ η) (world : σ) : Shard σ η × σ :=
  match shard.buffer with
  | none => (shard, world)
  | some buffer =>
      let (_, _, world) := buffer.flush shard.outlet world
      ({ shard with buffer := none }, world)

/-- Write the footer, hand everything over and release the destination.  Gives what held it. -/
def finish (shard : Shard σ η) (metadata : Metadata) (world : σ) : Outcome σ η η :=
  match shard.ensureOpen .finish world with
  | (.error error, shard, world) => (.error error, shard, world)
  | (.ok (), shard, world) =>
      match shard.put (shard.config.footerPieces metadata) world with
      | (.error error, shard, world) => (.error error, shard, world)
      | (.ok (), shard, world) =>
          let shard := { shard with state := ShardState.closed }
          match shard.buffer with
          | none => (.error (shard.illegal .finish), shard, world)
          | some buffer =>
              match buffer.flush shard.outlet world with
              | (.ok (), buffer, world) => (.ok buffer.handle, { shard with buffer := none }, world)
              | (.error error, buffer, world) =>
                  let (shard, world) := { shard with buffer := some buffer }.release world
                  (.error (.device error), shard, world)

end Shard
end TileBindery
