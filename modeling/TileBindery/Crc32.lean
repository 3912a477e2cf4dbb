import TileBindery.Bytes

/-!
# CRC-32

The reflected cyclic redundancy check with polynomial 0x04C11DB7, as in IEEE 802.3: the register
starts with all bits set and is complemented at the end.
-/

namespace TileBindery
namespace Crc32

/-- The polynomial with its bits reversed. -/
def polynomial : UInt32 := 0xEDB88320

/-- Divide by one power of the polynomial's variable. -/
def shift (register : UInt32) : UInt32 :=
  if register &&& 1 = 1 then (register >>> 1) ^^^ polynomial else register >>> 1

def shifts : Nat → UInt32 → UInt32
  | 0, register => register
  | count + 1, register => shifts count (shift register)

/-- Feed one octet into the register. -/
def feed (register : UInt32) (octet : UInt8) : UInt32 := shifts 8 (register ^^^ octet.toUInt32)

/-- The check value of a sequence of octets. -/
def checksum (octets : Bytes) : UInt32 := octets.foldl feed 0xFFFFFFFF ^^^ 0xFFFFFFFF

end Crc32
end TileBindery
