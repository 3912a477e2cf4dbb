import TileBindery.Device

/-!
# Compressed formats

The bodies of chunks can be compressed.  What packed octets look like is up to a library, and so is
what it makes of octets that it has not packed.
-/

namespace TileBindery

/-- A compressed format, with the writer and the reader of a library. -/
class Codec where
  /-- The packed form of octets, at a level of compression. -/
  pack : Int → Bytes → Bytes
  /-- What a reader of octets gives, packed or not, and how it ends. -/
  unpack : Bytes → ByteSource

namespace Codec

/-- What has been packed, at whatever level, is read back as it was. -/
def Lossless [Codec] : Prop := ∀ level octets, unpack (pack level octets) = .ofBytes octets

end Codec
end TileBindery
