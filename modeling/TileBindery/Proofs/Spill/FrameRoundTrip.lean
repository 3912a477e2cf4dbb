import TileBindery.Spill.Frame.Reader

/-!
# Frames are read as they were written

A frame keeps its blocks as they are, and each block is small enough for the window that the header
tells.  The main statement says that reading a frame gives back the octets it was made of, and then
the end of the stream, so nothing is lost in frames of kept blocks.
-/

namespace TileBindery
namespace Frame

/-- What a reader knows about the frames that are written. -/
def writtenShape : Shape := ⟨maxBlock, none, false⟩

theorem length_encode_header (header : BlockHeader) : header.encode.length = 3 :=
  Bytes.length_littleEndian 3 _

theorem ofCode?_encode {last : Bool} {size : Nat} (small : size ≤ maxBlock) :
    BlockHeader.ofCode? (Bytes.fromLittleEndian (BlockHeader.encode ⟨last, .kept, size⟩)) =
      some ⟨last, .kept, size⟩ := by
  have bound : size ≤ 131072 := small
  have code : Bytes.fromLittleEndian (BlockHeader.encode ⟨last, .kept, size⟩) =
      (if last then 1 else 0) + 8 * size := by
    rw [BlockHeader.encode, Bytes.fromLittleEndian_littleEndian]
    cases last <;> simp <;> omega
  rw [code]
  have kind : ((if last then 1 else 0) + 8 * size) / 2 % 4 = 0 := by
    split <;> omega
  have count : ((if last then 1 else 0) + 8 * size) / 8 = size := by
    split <;> omega
  have mark : decide (((if last then 1 else 0) + 8 * size) % 2 = 1) = last := by
    cases last <;> simp <;> omega
  simp only [BlockHeader.ofCode?, kind, count, mark]

theorem readBlock_kept {written : Nat} {last : Bool} {block rest : Bytes}
    (small : block.length ≤ maxBlock) :
    readBlock writtenShape written ⟨last, .kept, block.length⟩ (block ++ rest) =
      (block, .closed rest) := by
  have fits : fit writtenShape written block rest = (block, .closed rest) := by
    simp [fit, writtenShape, Nat.not_lt.2 small]
  have limit : ¬writtenShape.limit < (⟨last, .kept, block.length⟩ : BlockHeader).stored :=
    Nat.not_lt.2 small
  rw [readBlock, if_neg limit]
  simp only [BlockHeader.stored, Bytes.take?_append, fits]

/-- One kept block is read, and then what follows unless it is marked as the last. -/
theorem readBlocks_kept {written : Nat} {last : Bool} {block rest : Bytes}
    (small : block.length ≤ maxBlock) :
    readBlocks writtenShape written
        (BlockHeader.encode ⟨last, .kept, block.length⟩ ++ block ++ rest) =
      if last then (block, .closed rest)
      else
        (block ++ (readBlocks writtenShape (written + block.length) rest).1,
          (readBlocks writtenShape (written + block.length) rest).2) := by
  have taken : Bytes.take? 3 (BlockHeader.encode ⟨last, .kept, block.length⟩ ++ block ++ rest) =
      some (BlockHeader.encode ⟨last, .kept, block.length⟩, block ++ rest) := by
    rw [List.append_assoc, ← length_encode_header ⟨last, .kept, block.length⟩,
      Bytes.take?_append]
  rw [readBlocks]
  split
  next missing => cases taken.symm.trans missing
  next head behind found =>
    cases taken.symm.trans found
    rw [ofCode?_encode small]
    dsimp only
    split
    next read other found =>
      cases (readBlock_kept small).symm.trans found
      cases last <;> simp [isFull, writtenShape]
    next unclosed found =>
      cases (readBlock_kept small).symm.trans found
      exact absurd rfl (unclosed rest)

theorem readBlocks_blocks (written : Nat) (octets rest : Bytes) :
    readBlocks writtenShape written (blocks octets ++ rest) = (octets, .closed rest) := by
  induction count : octets.length using Nat.strongRecOn generalizing octets written with
  | ind count ih =>
      rw [blocks]
      split
      next small => rw [readBlocks_kept small, if_pos rfl]
      next large =>
        have front : (octets.take maxBlock).length = maxBlock :=
          List.length_take_of_le (Nat.le_of_not_le large)
        have shorter := length_drop_lt maxBlock_pos (Nat.lt_of_not_le large)
        have behind := ih _ (count ▸ shorter) (written + (octets.take maxBlock).length)
          (octets.drop maxBlock) rfl
        have first : readBlocks writtenShape written
            (BlockHeader.encode ⟨false, .kept, (octets.take maxBlock).length⟩ ++
              octets.take maxBlock ++ (blocks (octets.drop maxBlock) ++ rest)) = _ :=
          readBlocks_kept (Nat.le_of_eq front)
        rw [behind, front] at first
        rw [List.append_assoc, first, if_neg Bool.false_ne_true, List.take_append_drop]

theorem readContent_encode (octets : Bytes) :
    readContent (header ++ blocks octets) = (octets, .closed []) := by
  have shape : Descriptor.shape ⟨0⟩ [0x48] = .ok writtenShape := by rfl
  have read := readBlocks_blocks 0 octets []
  rw [List.append_nil] at read
  simp only [header, List.cons_append, List.nil_append, readContent]
  have taken : Bytes.take? (Descriptor.width ⟨0⟩) (0x48 :: blocks octets) =
      some ([0x48], blocks octets) := by rfl
  simp only [UInt8.toNat_zero, taken, shape, readShaped, read]
  rfl

/-- Reading a frame gives back the octets it was made of. -/
theorem decode_encode (octets : Bytes) : decode (encode octets) = .ofBytes octets := by
  have found : readFrame (encode octets) = (octets, .closed []) := by
    have lead : (encode octets).take 4 = magic := by rfl
    have behind : (encode octets).drop 4 = header ++ blocks octets := by rfl
    have starts : startsContent magic = true := by decide
    rw [readFrame, lead, behind, if_pos starts, readContent_encode]
  have left : ¬(encode octets).isEmpty := by simp [encode, magic]
  have ended : decode [] = .ofBytes [] := by
    rw [decode]
    rfl
  rw [decode, dif_neg left]
  split
  next other => cases found.symm.trans other
  next other => cases found.symm.trans other
  next content rest other =>
    cases found.symm.trans other
    simp [ended, ByteSource.ofBytes]

theorem lossless_codec : @Codec.Lossless codec := fun _ => decode_encode

end Frame
end TileBindery
