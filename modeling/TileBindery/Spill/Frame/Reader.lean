import TileBindery.Spill.Codec
import TileBindery.Spill.Frame.Header
import TileBindery.XxHash

/-!
# Reading frames

A body is a row of frames, and what they hold is read as one.  Some frames hold nothing and are
passed over.  The reader understands kept blocks and blocks of one repeated octet, and refuses
packed ones and frames of older versions, which other readers of the format follow.  It gives what it
has read up to the place where the octets end or cannot be followed.
-/

namespace TileBindery
namespace Frame

/-- What follows content that has been read. -/
inductive Close where
  | cut
  /-- The octets cannot be followed. -/
  | broken (error : DeviceError)
  /-- The octets behind what was to be read. -/
  | closed (rest : Bytes)

namespace Close

/-- Of octets that are left there are no more than `bound`. -/
def Within (bound : Nat) : Close → Prop
  | .closed rest => rest.length ≤ bound
  | .cut | .broken _ => True

theorem Within.mono {small large : Nat} {close : Close} (h : close.Within small)
    (le : small ≤ large) : close.Within large := by
  cases close with
  | closed rest => exact Nat.le_trans h le
  | cut | broken error => trivial

end Close

/-- The content of a block behind `written` octets, if the frame has room for it. -/
def fit (shape : Shape) (written : Nat) (block rest : Bytes) : Bytes × Close :=
  if shape.size.any fun size => size < written + block.length then ([], .broken overfull)
  else if shape.limit < block.length then ([], .broken damaged)
  else (block, .closed rest)

/-- Read the block behind its header.  Of a kept block that is cut there is what there is. -/
def readBlock (shape : Shape) (written : Nat) (header : BlockHeader) (octets : Bytes) :
    Bytes × Close :=
  if shape.limit < header.stored then ([], .broken damaged)
  else
    match header.kind, Bytes.take? header.stored octets with
    | .kept, none => (octets, .cut)
    | _, none => ([], .cut)
    | .kept, some (block, rest) => fit shape written block rest
    | .repeated, some (block, rest) =>
        fit shape written (block.flatMap (List.replicate header.size)) rest
    | .packed, some (_, rest) =>
        if header.size = 0 then ([], .closed rest) else ([], .broken damaged)

/-- The last block fills the frame, unless it is empty. -/
def isFull (shape : Shape) (written : Nat) (header : BlockHeader) : Bool :=
  header.stored = 0 || shape.size.all (· = written)

theorem within_fit (shape : Shape) (written : Nat) (block rest : Bytes) :
    (fit shape written block rest).2.Within rest.length := by
  unfold fit
  split
  · trivial
  · split
    · trivial
    · exact Nat.le_refl _

theorem within_readBlock (shape : Shape) (written : Nat) (header : BlockHeader) (octets : Bytes) :
    (readBlock shape written header octets).2.Within octets.length := by
  unfold readBlock
  split
  · trivial
  · split
    next => trivial
    next => trivial
    next taken => exact (within_fit ..).mono (Bytes.length_rest_le taken)
    next taken => exact (within_fit ..).mono (Bytes.length_rest_le taken)
    next taken =>
      split
      · exact Bytes.length_rest_le taken
      · trivial

theorem length_behind_block_lt {shape : Shape} {written : Nat} {header : BlockHeader}
    {octets head behind block rest : Bytes} (taken : Bytes.take? 3 octets = some (head, behind))
    (found : readBlock shape written header behind = (block, .closed rest)) :
    rest.length < octets.length := by
  have within := within_readBlock shape written header behind
  rw [found] at within
  exact Nat.lt_of_le_of_lt within (Bytes.length_rest_lt taken)

/-- Read the blocks of a frame behind `written` octets of its content. -/
def readBlocks (shape : Shape) (written : Nat) (octets : Bytes) : Bytes × Close :=
  match taken : Bytes.take? 3 octets with
  | none => ([], .cut)
  | some (head, rest) =>
      match BlockHeader.ofCode? (Bytes.fromLittleEndian head) with
      | none => ([], .broken damaged)
      | some header =>
          match found : readBlock shape written header rest with
          | (block, .closed rest) =>
              let written := written + block.length
              if header.last then
                if isFull shape written header then (block, .closed rest)
                else ([], .broken damaged)
              else
                have := length_behind_block_lt taken found
                let (content, close) := readBlocks shape written rest
                (block ++ content, close)
          | (block, close) => (block, close)
termination_by octets.length

theorem within_readBlocks (shape : Shape) (written : Nat) (octets : Bytes) :
    (readBlocks shape written octets).2.Within octets.length := by
  fun_induction readBlocks shape written octets with
  | case1 => trivial
  | case2 => trivial
  | case3 written octets head behind taken header decoded block rest found =>
    exact Nat.le_of_lt (length_behind_block_lt taken found)
  | case4 => trivial
  | case5 written octets head behind taken header decoded block rest found _ _ shorter content close
      equal ih =>
    rw [equal] at ih
    exact ih.mono (Nat.le_of_lt shorter)
  | case6 written octets head behind taken header decoded block close unclosed found =>
    cases close with
    | closed rest => exact absurd rfl (unclosed rest)
    | cut | broken error => trivial

/-- Read the check value behind content. -/
def readCheck (shape : Shape) (content octets : Bytes) : Close :=
  if ¬shape.checked then .closed octets
  else
    match Bytes.take? 4 octets with
    | none => .cut
    | some (stored, rest) =>
        if Bytes.fromLittleEndian stored = (XxHash.ofBytes content).toNat % 2 ^ 32 then
          .closed rest
        else .broken altered

theorem within_readCheck (shape : Shape) (content octets : Bytes) :
    (readCheck shape content octets).Within octets.length := by
  unfold readCheck
  split
  · exact Nat.le_refl _
  · split
    · trivial
    next taken =>
      split
      · exact Bytes.length_rest_le taken
      · trivial

/-- Read a frame of a known shape behind its header. -/
def readShaped (shape : Shape) (octets : Bytes) : Bytes × Close :=
  match readBlocks shape 0 octets with
  | (content, .closed rest) => (content, readCheck shape content rest)
  | (content, close) => (content, close)

theorem within_readShaped (shape : Shape) (octets : Bytes) :
    (readShaped shape octets).2.Within octets.length := by
  have within := within_readBlocks shape 0 octets
  unfold readShaped
  split
  next found =>
    rw [found] at within
    exact (within_readCheck ..).mono within
  next found =>
    rw [found] at within
    exact within

/-- Read a frame from its descriptor on. -/
def readContent (octets : Bytes) : Bytes × Close :=
  match octets with
  | [] => ([], .cut)
  | code :: behind =>
      let descriptor : Descriptor := ⟨code.toNat⟩
      match Bytes.take? descriptor.width behind with
      | none => ([], .cut)
      | some (fields, rest) =>
          match descriptor.shape fields with
          | .error error => ([], .broken error)
          | .ok shape => readShaped shape rest

theorem within_readContent (octets : Bytes) :
    (readContent octets).2.Within octets.length := by
  unfold readContent
  split
  · trivial
  · dsimp only
    split
    · trivial
    next taken =>
      split
      · trivial
      · exact (within_readShaped ..).mono
          (Nat.le_trans (Bytes.length_rest_le taken) (Nat.le_succ _))

/-- Pass over the octets that a number of four octets in front of them counts. -/
def passOver (octets : Bytes) : Close :=
  match Bytes.take? 4 octets with
  | none => .cut
  | some (count, behind) =>
      match Bytes.take? (Bytes.fromLittleEndian count) behind with
      | none => .cut
      | some (_, rest) => .closed rest

theorem within_passOver (octets : Bytes) : (passOver octets).Within octets.length := by
  unfold passOver
  split
  · trivial
  next taken =>
    split
    · trivial
    next passed => exact Nat.le_trans (Bytes.length_rest_le passed) (Bytes.length_rest_le taken)

/-- The octets that a frame without content starts with.  The low half of the first is free. -/
def emptyMagic : Bytes := [0x50, 0x2A, 0x4D, 0x18]

/-- The octets that frames of the three oldest versions start with. -/
def outdatedMagics : List Bytes :=
  [[0xFD, 0x2F, 0xB5, 0x1E], [0x22, 0xB5, 0x2F, 0xFD], [0x23, 0xB5, 0x2F, 0xFD]]

/-- As far as they go, these octets start a frame with content. -/
def startsContent (lead : Bytes) : Bool := lead.isPrefixOf magic

/-- As far as they go, these octets start a frame without content. -/
def startsEmpty (lead : Bytes) : Bool :=
  match lead with
  | [] => true
  | first :: rest => ((first &&& 0xF0) :: rest).isPrefixOf emptyMagic

/-- Read the frame at the front.  Four octets tell what it is; they are held against what a frame
may start with before all of them are there. -/
def readFrame (octets : Bytes) : Bytes × Close :=
  let lead := octets.take 4
  let rest := octets.drop 4
  if startsContent lead then readContent rest
  else if startsEmpty lead then ([], passOver rest)
  else if outdatedMagics.contains lead ∧ rest ≠ [] then ([], .broken outdated)
  else ([], .broken foreign)

theorem within_readFrame (octets : Bytes) :
    (readFrame octets).2.Within (octets.length - 4) := by
  rw [← List.length_drop]
  unfold readFrame
  dsimp only
  split
  · exact within_readContent _
  · split
    · exact within_passOver _
    · split <;> trivial

theorem length_behind_frame_lt {octets content rest : Bytes} (left : ¬octets.isEmpty)
    (found : readFrame octets = (content, .closed rest)) : rest.length < octets.length := by
  have within := within_readFrame octets
  rw [found] at within
  have positive : 0 < octets.length := by
    cases octets with
    | nil => exact absurd rfl left
    | cons octet rest => exact Nat.succ_pos _
  exact Nat.lt_of_le_of_lt within (Nat.sub_lt positive (by omega))

/-- The content of a row of frames. -/
def decode (octets : Bytes) : ByteSource :=
  if empty : octets.isEmpty then .ofBytes []
  else
    match found : readFrame octets with
    | (content, .cut) => ⟨content, none⟩
    | (content, .broken error) => ⟨content, some error⟩
    | (content, .closed rest) =>
        have := length_behind_frame_lt empty found
        let source := decode rest
        { source with octets := content ++ source.octets }
termination_by octets.length

/-- Bodies of kept blocks, the same at every level. -/
abbrev codec : Codec where
  pack _ octets := encode octets
  unpack := decode

end Frame
end TileBindery
