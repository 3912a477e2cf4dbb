import TileBindery.Bytes
import TileBindery.Disk.Path
import TileBindery.XxHash

/-!
# Shards of an archive

Tiles are spread over shards by a hash of their identifier, so the shard of a tile depends on
nothing but its identifier and the number of shards.  The shards are files beside each other.
-/

namespace TileBindery
namespace Routing

/-- The hash of a tile identifier, whose octets enter the hash most significant first. -/
def hashId (id : Nat) : UInt64 :=
  XxHash.ofWord (UInt32.ofNat (Bytes.fromLittleEndian (Bytes.bigEndian 4 id)))

/-- The shard of the tile with an identifier. -/
def shardOf (id shards : Nat) : Nat := if shards ≤ 1 then 0 else (hashId id).toNat % shards

theorem shardOf_lt {id shards : Nat} (h : 0 < shards) : shardOf id shards < shards := by
  unfold shardOf
  split
  · exact h
  · exact Nat.mod_lt _ h

/-- The path of a shard: the archive's path, followed by the number of every shard but the
first. -/
def shardPath (base : String) (index : Nat) : String :=
  if index = 0 then base else base ++ toString index

end Routing
end TileBindery
