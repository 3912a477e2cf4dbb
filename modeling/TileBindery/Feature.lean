import TileBindery.Bytes
import TileBindery.Tile

/-!
# Features

A feature is an opaque payload with a 64-bit sort key.  The upper half of the key is the identifier
of the feature's tile, the lower half orders features inside the tile.
-/

namespace TileBindery

/-- A payload with the key it is sorted by. -/
structure Feature where
  /-- Tile identifier in the upper 32 bits, order inside the tile in the lower 32. -/
  key : UInt64
  /-- The encoded feature, never interpreted while sorting. -/
  payload : Bytes
  deriving DecidableEq, Repr, Inhabited

namespace Feature

/-- The sort key of a feature of `tile` with the in-tile order `secondary`. -/
def packKey (tile : Tile) (secondary : UInt32) : UInt64 :=
  UInt64.ofNat (tile.id * 2 ^ 32 + secondary.toNat)

def ofTile (tile : Tile) (secondary : UInt32) (payload : Bytes) : Feature :=
  ⟨packKey tile secondary, payload⟩

/-- The identifier of the feature's tile. -/
def tileId (feature : Feature) : Nat := feature.key.toNat / 2 ^ 32

/-- The order of the feature inside its tile. -/
def secondary (feature : Feature) : Nat := feature.key.toNat % 2 ^ 32

/-- The tile of the feature, if its key names one. -/
def tile? (feature : Feature) : Except TileError Tile := Tile.ofId? feature.tileId

end Feature

/-- All features of one tile, in key order. -/
structure TileFeatures where
  tile : Tile
  features : List Feature
  deriving DecidableEq, Repr

namespace TileFeatures

/-- The payloads of the tile's features, in order. -/
def payloads (group : TileFeatures) : List Bytes := group.features.map (·.payload)

end TileFeatures
end TileBindery
