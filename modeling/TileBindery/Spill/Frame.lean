import TileBindery.Bytes

/-!
# Frames of kept blocks

A frame of the Zstandard format is a header and blocks, the last of which is marked.  The writer
keeps its blocks as they are, which every reader of the format accepts.  It is one way to fill a
`Codec`; nothing that is said of chunks in general depends on it.
-/

namespace TileBindery
namespace Frame

/-- The octets that every frame starts with. -/
def magic : Bytes := [0x28, 0xB5, 0x2F, 0xFD]

/-- The frame header behind the magic octets: no content size, no checksum, and a window of
512 KiB. -/
def header : Bytes := [0x00, 0x48]

def maxBlock : Nat := 131072

theorem maxBlock_pos : 0 < maxBlock := by
  unfold maxBlock
  omega

inductive BlockKind where
  | kept
  | repeated
  /-- Octets that have been made fewer. -/
  | packed
  deriving DecidableEq, Repr

/-- What the header of a block tells. -/
structure BlockHeader where
  /-- No block follows in the frame. -/
  last : Bool
  kind : BlockKind
  /-- How often a repeated octet stands in the content; else how many octets the block has. -/
  size : Nat
  deriving DecidableEq, Repr

namespace BlockHeader

/-- The octets of a block's header. -/
def encode (header : BlockHeader) : Bytes :=
  let code := match header.kind with
    | .kept => 0
    | .repeated => 1
    | .packed => 2
  Bytes.littleEndian 3 ((if header.last then 1 else 0) + 2 * code + 8 * header.size)

/-- The header that three octets hold.  One kind stands for no block. -/
def ofCode? (code : Nat) : Option BlockHeader :=
  let ofKind kind := some ⟨code % 2 = 1, kind, code / 8⟩
  match code / 2 % 4 with
  | 0 => ofKind .kept
  | 1 => ofKind .repeated
  | 2 => ofKind .packed
  | _ => none

/-- How many octets a block has behind its header. -/
def stored (header : BlockHeader) : Nat :=
  match header.kind with
  | .repeated => 1
  | .kept | .packed => header.size

end BlockHeader

theorem length_drop_lt {count : Nat} {octets : Bytes} (h : 0 < count)
    (longer : count < octets.length) : (octets.drop count).length < octets.length := by
  rw [List.length_drop]
  omega

def blocks (octets : Bytes) : Bytes :=
  if octets.length ≤ maxBlock then BlockHeader.encode ⟨true, .kept, octets.length⟩ ++ octets
  else
    BlockHeader.encode ⟨false, .kept, maxBlock⟩ ++ octets.take maxBlock ++
      blocks (octets.drop maxBlock)
termination_by octets.length
decreasing_by exact length_drop_lt maxBlock_pos (Nat.lt_of_not_le ‹_›)

def encode (octets : Bytes) : Bytes := magic ++ header ++ blocks octets

end Frame
end TileBindery
