import TileBindery.Proofs.Spill.ChunkWriting
import TileBindery.Proofs.Spill.Opening

/-!
# What a sorter holds

A sorter that collects holds the features it has accepted: slices of them lie sorted in chunk files,
in order of arrival, and the rest is in its buffer.  The main statements say that accepting a feature
keeps this, that a failed spill poisons, and that sorting hands out all features in key order.
-/

namespace TileBindery

namespace Chunk

variable [Codec]

/-- A chunk of a directory whose file holds the features of a slice in key order. -/
structure Holds (directory : String) (config : SpillConfig) (disk : Disk) (chunk : Chunk)
    (slice : List Feature) : Prop where
  /-- The file has the path of the chunk's number. -/
  path : chunk.path = chunkPath directory chunk.number
  /-- The file holds what was written. -/
  stored : ∃ octets, encode chunk.number (Sorter.inKeyOrder slice) config = .ok octets ∧
    disk.read (Path.ofText chunk.path) = .ok octets
  /-- The header can count the features. -/
  few : slice.length < 2 ^ 64

theorem Holds.of_read {directory : String} {config : SpillConfig} {disk other : Disk}
    {chunk : Chunk} {slice : List Feature} (holds : chunk.Holds directory config disk slice)
    (same : ∀ octets, disk.read (Path.ofText chunk.path) = .ok octets → octets ≠ [] →
      other.read (Path.ofText chunk.path) = .ok octets) :
    chunk.Holds directory config other slice := by
  obtain ⟨octets, encoded, found⟩ := holds.stored
  exact ⟨holds.path, ⟨octets, encoded, same octets found (ne_nil_of_encode encoded)⟩, holds.few⟩

/-- A chunk's file gives back its slice in key order. -/
theorem Holds.contents {directory : String} {config : SpillConfig} {disk : Disk}
    {chunk : Chunk} {slice : List Feature} (lossless : config.compress = true → Codec.Lossless)
    (holds : chunk.Holds directory config disk slice)
    (fits : ∀ feature ∈ slice, feature.payload.length ≤ ChunkRecord.maxPayload) :
    chunk.contents disk = ⟨Sorter.inKeyOrder slice, none⟩ := by
  obtain ⟨octets, encoded, found⟩ := holds.stored
  obtain ⟨reaches, number, stands, rfl⟩ := Disk.read_iff.1 found
  have order := Sorter.stableOrder_inKeyOrder slice
  refine contents_of_encode lossless (Disk.fileAt_iff.2 ⟨reaches, stands⟩) encoded ?_ ?_
  · intro feature member
    exact fits feature (order.mem_iff.1 member)
  · rw [order.perm.length_eq]
    exact holds.few

end Chunk

namespace Sorter

/-- An empty buffer has reached none of its limits. -/
theorem room_of_empty {sorter : Sorter} (valid : sorter.config.check = .ok ())
    (size : sorter.buffer.size = 0) (bytes : sorter.bufferBytes = 0) : sorter.isFull = false := by
  rw [SpillConfig.check] at valid
  split at valid
  · simp at valid
  next someBytes =>
    split at valid
    · simp at valid
    next someFeatures =>
      cases limit : sorter.config.chunkFeatures with
      | none => simp [isFull, limit, bytes, someBytes]
      | some most =>
          have positive : most ≠ 0 := by
            rintro rfl
            exact someFeatures limit
          simp [isFull, limit, size, bytes, someBytes, positive]

theorem length_lt_of_room {sorter : Sorter} {feature : Feature}
    (bytes : sorter.config.chunkBytes < 2 ^ 64) (room : sorter.isFull = false)
    (size : sorter.buffer.size * featureOverhead ≤ sorter.bufferBytes) :
    (sorter.push feature).buffer.toList.length < 2 ^ 64 := by
  have below : sorter.bufferBytes < sorter.config.chunkBytes := by
    simp only [isFull, Bool.or_eq_false_iff, decide_eq_false_iff_not, Nat.not_le] at room
    exact room.1
  simp only [push, Array.toList_push, List.length_append, List.length_singleton,
    Array.length_toList]
  rw [featureOverhead] at size
  omega

theorem eq_fresh_of_create {directory : String} {config : SpillConfig} {disk begun : Disk}
    {sorter : Sorter} (created : create directory config disk = (.ok sorter, begun)) :
    config.check = .ok () ∧ sorter = Sorter.fresh directory config := by
  rw [create] at created
  split at created
  · simp at created
  next valid =>
    dsimp only at created
    split at created
    · simp at created
    · simp only [Prod.mk.injEq, Except.ok.injEq] at created
      exact ⟨valid, created.1.symm⟩

theorem forall₂_inKeyOrder (slices : List (List Feature)) :
    List.Forall₂ (StableOrder keyOf) slices (slices.map inKeyOrder) :=
  List.forall₂_map_right_iff.2 (List.forall₂_same.2 fun slice _ => stableOrder_inKeyOrder slice)

/-- Sorted parts, merged, are the stable order of what the parts were made of. -/
theorem map_feature_inOrder {parts slices : List (List Feature)}
    (sorted : List.Forall₂ (StableOrder keyOf) slices parts) :
    (PlacedFeature.inOrder (PlacedFeature.placeAll 0 (parts.map (⟨·, none⟩)))).map (·.feature) =
      inKeyOrder slices.flatten := by
  let placed := PlacedFeature.placeAll 0 (parts.map (⟨·, none⟩))
  have features : placed.map (·.feature) = parts.flatten := by
    rw [PlacedFeature.map_feature_placeAll, List.map_map]
    exact congrArg List.flatten (List.map_id' parts)
  have merged : StableOrder keyOf parts.flatten
      ((PlacedFeature.inOrder placed).map (·.feature)) := by
    have order : StableOrder (fun each => keyOf each.feature) placed
        (PlacedFeature.inOrder placed) :=
      PlacedFeature.stableOrder_inOrder (PlacedFeature.before_placeAll 0 _)
    rw [← features]
    exact order.map PlacedFeature.feature
  exact (StableOrder.of_parts sorted merged).unique (stableOrder_inKeyOrder _)

theorem handOut_inOrder {parts slices : List (List Feature)}
    (sorted : List.Forall₂ (StableOrder keyOf) slices parts) :
    PlacedFeature.handOut (PlacedFeature.inOrder (PlacedFeature.placeAll 0
      (parts.map (⟨·, none⟩)))) = (inKeyOrder slices.flatten).map .ok := by
  rw [PlacedFeature.handOut_of_sound, ← map_feature_inOrder sorted, List.map_map]
  · rfl
  · intro each member
    refine PlacedFeature.fault_of_mem_placeAll ?_ ((PlacedFeature.inOrder_perm _).mem_iff.1 member)
    intro contents contents_mem
    obtain ⟨part, -, rfl⟩ := List.mem_map.1 contents_mem
    rfl

variable [Codec]

/-- A sorter collects, and has accepted these features so far. -/
structure Holds (sorter : Sorter) (disk : Disk) (features : List Feature) : Prop where
  /-- It accepts further features. -/
  collecting : sorter.phase = .collecting
  /-- Its settings make sense. -/
  valid : sorter.config.check = .ok ()
  /-- Slices of the features lie in chunk files, and the rest is in the buffer. -/
  slices : ∃ slices : List (List Feature),
    List.Forall₂ (Chunk.Holds sorter.directory sorter.config disk) sorter.chunks slices ∧
      slices.flatten ++ sorter.buffer.toList = features
  /-- The number of the next chunk is above those of all others. -/
  fresh : ∀ chunk ∈ sorter.chunks, chunk.number < sorter.nextChunk
  /-- All payloads fit into a record. -/
  fits : ∀ feature ∈ features, feature.payload.length ≤ ChunkRecord.maxPayload
  /-- The estimated size counts every feature of the buffer. -/
  size : sorter.buffer.size * featureOverhead ≤ sorter.bufferBytes
  /-- The buffer has reached none of its limits. -/
  room : sorter.isFull = false
  /-- All features have been counted. -/
  counted : sorter.counters.featuresAdded = features.length

/-- The files of a sorter's chunks are read as before. -/
def Undisturbed (sorter : Sorter) (disk other : Disk) : Prop :=
  ∀ chunk ∈ sorter.chunks, ∀ octets, disk.read (Path.ofText chunk.path) = .ok octets →
    octets ≠ [] → other.read (Path.ofText chunk.path) = .ok octets

theorem forall₂_of_undisturbed {sorter : Sorter} {disk other : Disk}
    {slices : List (List Feature)} (same : sorter.Undisturbed disk other)
    (stored : List.Forall₂ (Chunk.Holds sorter.directory sorter.config disk) sorter.chunks slices) :
    List.Forall₂ (Chunk.Holds sorter.directory sorter.config other) sorter.chunks slices := by
  have both := (List.forall₂_and_left _ _).2 ⟨same, stored⟩
  exact both.imp fun chunk slice ⟨still, own⟩ => own.of_read still

/-- Changes elsewhere on the disk do not matter. -/
theorem Holds.of_undisturbed {sorter : Sorter} {disk other : Disk} {features : List Feature}
    (holds : sorter.Holds disk features) (same : sorter.Undisturbed disk other) :
    sorter.Holds other features := by
  obtain ⟨slices, stored, whole⟩ := holds.slices
  exact { holds with slices := ⟨slices, forall₂_of_undisturbed same stored, whole⟩ }

theorem holds_fresh {directory : String} {config : SpillConfig} (disk : Disk)
    (valid : config.check = .ok ()) : (fresh directory config).Holds disk [] where
  collecting := rfl
  valid := valid
  slices := ⟨[], .nil, rfl⟩
  fresh := by simp [Sorter.fresh]
  fits := by simp
  size := Nat.le_of_eq (Nat.zero_mul _)
  room := room_of_empty valid rfl rfl
  counted := rfl

/-! ### Accepting features -/

/-- A sorter whose buffer has gone to a chunk file. -/
def stored (sorter : Sorter) (chunk : Chunk) : Sorter :=
  { sorter with
    buffer := #[]
    bufferBytes := 0
    nextChunk := sorter.nextChunk + 1
    chunks := sorter.chunks ++ [chunk]
    counters :=
      { sorter.counters with
        chunksSpilled := sorter.counters.chunksSpilled + 1
        bytesSpilled := sorter.counters.bytesSpilled + chunk.size } }

/-- A sorter whose buffer is lost. -/
def spoiled (sorter : Sorter) : Sorter :=
  { sorter with
    buffer := #[], bufferBytes := 0, nextChunk := sorter.nextChunk + 1, phase := .poisoned }

/-- Write the buffer of a sorter as its next chunk. -/
def writeBuffer (sorter : Sorter) (disk : Disk) : Except SortError Chunk × Disk :=
  Chunk.write sorter.directory sorter.nextChunk (inKeyOrder sorter.buffer.toList) sorter.config disk

theorem spill_eq (sorter : Sorter) (disk : Disk) :
    sorter.spill disk =
      match sorter.writeBuffer disk with
      | (.error error, behind) => (.error error, sorter.spoiled, behind)
      | (.ok chunk, behind) => (.ok (), sorter.stored chunk, behind) := by
  unfold spill writeBuffer
  dsimp only
  cases Chunk.write sorter.directory sorter.nextChunk (inKeyOrder sorter.buffer.toList)
      sorter.config disk with
  | mk result behind => cases result <;> rfl

/-- All that adding a feature can do. -/
inductive Added (sorter : Sorter) (feature : Feature) (disk : Disk) :
    Except SortError Unit × Sorter × Disk → Prop where
  /-- The payload does not fit into a record. -/
  | tooLarge (large : ChunkRecord.maxPayload < feature.payload.length) :
      Added sorter feature disk (.error (.featureTooLarge feature.payload.length), sorter, disk)
  /-- A spill has failed before. -/
  | refused (fits : feature.payload.length ≤ ChunkRecord.maxPayload)
      (poisoned : sorter.phase = .poisoned) :
      Added sorter feature disk (.error .poisoned, sorter, disk)
  /-- The features have been handed over before. -/
  | late (fits : feature.payload.length ≤ ChunkRecord.maxPayload)
      (handedOver : sorter.phase = .handedOver) :
      Added sorter feature disk (.error .alreadySorted, sorter, disk)
  /-- The buffer takes the feature. -/
  | buffered (fits : feature.payload.length ≤ ChunkRecord.maxPayload)
      (collecting : sorter.phase = .collecting) (room : (sorter.push feature).isFull = false) :
      Added sorter feature disk (.ok (), sorter.push feature, disk)
  /-- The feature fills the buffer, which goes to a chunk file. -/
  | spilled {chunk : Chunk} {behind : Disk}
      (fits : feature.payload.length ≤ ChunkRecord.maxPayload)
      (collecting : sorter.phase = .collecting)
      (written : (sorter.push feature).writeBuffer disk = (.ok chunk, behind)) :
      Added sorter feature disk (.ok (), (sorter.push feature).stored chunk, behind)
  /-- The feature fills the buffer, which cannot be written. -/
  | lost {error : SortError} {behind : Disk}
      (fits : feature.payload.length ≤ ChunkRecord.maxPayload)
      (collecting : sorter.phase = .collecting)
      (failed : (sorter.push feature).writeBuffer disk = (.error error, behind)) :
      Added sorter feature disk (.error error, (sorter.push feature).spoiled, behind)

theorem added (sorter : Sorter) (feature : Feature) (disk : Disk) :
    Added sorter feature disk (sorter.add feature disk) := by
  rw [add]
  split
  next large => exact .tooLarge large
  next small =>
    have fits := Nat.not_lt.1 small
    split
    next poisoned => exact .refused fits poisoned
    next handedOver => exact .late fits handedOver
    next collecting =>
      dsimp only
      split
      next full =>
        rw [spill_eq]
        split
        next failed => exact .lost fits collecting failed
        next written => exact .spilled fits collecting written
      next room => exact .buffered fits collecting (Bool.not_eq_true _ ▸ room)

theorem config_add (sorter : Sorter) (feature : Feature) (disk : Disk) :
    (sorter.add feature disk).2.1.config = sorter.config := by
  have result := added sorter feature disk
  generalize sorter.add feature disk = outcome at result ⊢
  cases result <;> rfl

theorem add_of_full {sorter : Sorter} {feature : Feature} (disk : Disk)
    (fits : feature.payload.length ≤ ChunkRecord.maxPayload)
    (collecting : sorter.phase = .collecting) (full : (sorter.push feature).isFull) :
    sorter.add feature disk = (sorter.push feature).spill disk := by
  rw [add, if_neg (Nat.not_lt.2 fits), collecting]
  exact if_pos full

theorem Holds.push {sorter : Sorter} {disk : Disk} {features : List Feature} {feature : Feature}
    (holds : sorter.Holds disk features)
    (fits : feature.payload.length ≤ ChunkRecord.maxPayload)
    (room : (sorter.push feature).isFull = false) :
    (sorter.push feature).Holds disk (features ++ [feature]) := by
  obtain ⟨slices, stored, rfl⟩ := holds.slices
  refine ⟨holds.collecting, holds.valid, ⟨slices, stored, by simp [Sorter.push]⟩, holds.fresh, ?_,
    ?_, room, ?_⟩
  · intro other member
    rcases List.mem_append.1 member with old | new
    · exact holds.fits other old
    · exact List.mem_singleton.1 new ▸ fits
  · have size := holds.size
    simp only [Sorter.push, Array.size_push, estimatedSize]
    rw [Nat.succ_mul]
    omega
  · rw [List.length_append, List.length_singleton, ← holds.counted]
    rfl

/-- Writing the buffer leaves the files of earlier chunks alone. -/
theorem Holds.undisturbed {sorter : Sorter} {disk behind : Disk} {features : List Feature}
    {feature : Feature} {chunk : Chunk} (holds : sorter.Holds disk features)
    (written : (sorter.push feature).writeBuffer disk = (.ok chunk, behind)) :
    sorter.Undisturbed disk behind := by
  obtain ⟨octets, -, -, placed⟩ := Chunk.stored_of_write written
  obtain ⟨slices, kept, -⟩ := holds.slices
  intro other member octets found filled
  obtain ⟨slice, -, other_holds⟩ := exists_right_of_forall₂ kept member
  rw [other_holds.path] at found ⊢
  refine placed.read_other (Chunk.chunkPath_apart ?_ _) filled found
  exact Nat.ne_of_lt (holds.fresh other member)

/-- The chunk that is written holds what was in the buffer. -/
theorem Holds.written {sorter : Sorter} {disk behind : Disk} {features : List Feature}
    {feature : Feature} {chunk : Chunk} (bytes : sorter.config.chunkBytes < 2 ^ 64)
    (holds : sorter.Holds disk features)
    (written : (sorter.push feature).writeBuffer disk = (.ok chunk, behind)) :
    chunk.Holds sorter.directory sorter.config behind (sorter.push feature).buffer.toList := by
  obtain ⟨octets, encoded, shape, placed⟩ := Chunk.stored_of_write written
  rw [shape]
  exact ⟨rfl, ⟨octets, encoded, placed.read⟩, length_lt_of_room bytes holds.room holds.size⟩

theorem Holds.spill {sorter : Sorter} {disk behind : Disk} {features : List Feature}
    {feature : Feature} {chunk : Chunk} (bytes : sorter.config.chunkBytes < 2 ^ 64)
    (holds : sorter.Holds disk features)
    (fits : feature.payload.length ≤ ChunkRecord.maxPayload)
    (written : (sorter.push feature).writeBuffer disk = (.ok chunk, behind)) :
    ((sorter.push feature).stored chunk).Holds behind (features ++ [feature]) := by
  obtain ⟨octets, -, shape, -⟩ := Chunk.stored_of_write written
  have undisturbed := holds.undisturbed written
  have last := holds.written bytes written
  obtain ⟨slices, kept, rfl⟩ := holds.slices
  refine ⟨holds.collecting, holds.valid, ⟨slices ++ [(sorter.push feature).buffer.toList],
    List.rel_append (forall₂_of_undisturbed undisturbed kept) (.cons last .nil), ?_⟩, ?_, ?_, ?_,
    room_of_empty holds.valid rfl rfl, ?_⟩
  · simp [Sorter.push, Sorter.stored]
  · intro chunk member
    rcases List.mem_append.1 member with old | new
    · exact Nat.lt_succ_of_lt (holds.fresh chunk old)
    · rw [List.mem_singleton.1 new, shape]
      exact Nat.lt_succ_self _
  · intro other member
    rcases List.mem_append.1 member with old | new
    · exact holds.fits other old
    · exact List.mem_singleton.1 new ▸ fits
  · exact Nat.le_of_eq (Nat.zero_mul _)
  · rw [List.length_append, List.length_singleton, ← holds.counted]
    rfl

/-- An accepted feature is held behind all others. -/
theorem Holds.add {sorter after : Sorter} {disk behind : Disk} {features : List Feature}
    {feature : Feature} (bytes : sorter.config.chunkBytes < 2 ^ 64)
    (holds : sorter.Holds disk features)
    (accepted : sorter.add feature disk = (.ok (), after, behind)) :
    after.Holds behind (features ++ [feature]) ∧ after.config = sorter.config ∧
      after.directory = sorter.directory := by
  have result := added sorter feature disk
  rw [accepted] at result
  cases result with
  | buffered fits _ room => exact ⟨holds.push fits room, rfl, rfl⟩
  | spilled fits _ written => exact ⟨holds.spill bytes fits written, rfl, rfl⟩

/-- A feature that is not accepted is refused without a trace, or a spill fails. -/
theorem Holds.add_error {sorter after : Sorter} {disk behind : Disk} {features : List Feature}
    {feature : Feature} {error : SortError} (holds : sorter.Holds disk features)
    (failed : sorter.add feature disk = (.error error, after, behind)) :
    (error = .featureTooLarge feature.payload.length ∧ after = sorter ∧ behind = disk) ∨
      ((∃ reason, error = .device reason) ∧ after.phase = .poisoned) := by
  have result := added sorter feature disk
  rw [failed] at result
  cases result with
  | tooLarge => exact .inl ⟨rfl, rfl, rfl⟩
  | refused _ poisoned => rw [holds.collecting] at poisoned; cases poisoned
  | late _ handedOver => rw [holds.collecting] at handedOver; cases handedOver
  | lost fits _ lost =>
      refine .inr ⟨Chunk.device_of_write ?_ lost, rfl⟩
      intro other member
      have buffered := (stableOrder_inKeyOrder _).mem_iff.1 member
      obtain ⟨slices, -, rfl⟩ := holds.slices
      rw [Sorter.push, Array.toList_push] at buffered
      rcases List.mem_append.1 buffered with old | new
      · exact holds.fits other (List.mem_append_right _ old)
      · exact List.mem_singleton.1 new ▸ fits

theorem Holds.addAll {sorter after : Sorter} {disk behind : Disk} {held features : List Feature}
    {count : Nat} (bytes : sorter.config.chunkBytes < 2 ^ 64) (holds : sorter.Holds disk held)
    (accepted : sorter.addAll features disk = (count, .ok (), after, behind)) :
    after.Holds behind (held ++ features) ∧ after.config = sorter.config := by
  induction features generalizing sorter disk held count with
  | nil =>
      cases accepted
      exact ⟨by rwa [List.append_nil], rfl⟩
  | cons feature rest ih =>
      rw [Sorter.addAll] at accepted
      split at accepted
      · simp at accepted
      next next_sorter next_disk taken =>
        obtain ⟨next_holds, config, -⟩ := holds.add bytes taken
        simp only [Prod.mk.injEq] at accepted
        obtain ⟨behind_holds, kept⟩ := ih (config ▸ bytes) next_holds (Prod.ext rfl accepted.2)
        rw [List.append_assoc] at behind_holds
        exact ⟨behind_holds, kept.trans config⟩

/-! ### Handing features over -/

/-- Every chunk's file gives back a slice of the features in key order. -/
theorem Holds.forall₂_contents {sorter : Sorter} {disk : Disk} {features : List Feature}
    (lossless : sorter.config.compress = true → Codec.Lossless) (holds : sorter.Holds disk features) :
    ∃ slices : List (List Feature),
      List.Forall₂ (fun chunk slice => chunk.contents disk = ⟨inKeyOrder slice, none⟩)
        sorter.chunks slices ∧
      slices.flatten ++ sorter.buffer.toList = features := by
  obtain ⟨slices, stored, rfl⟩ := holds.slices
  have fits : ∀ slice ∈ slices, ∀ feature ∈ slice,
      feature.payload.length ≤ ChunkRecord.maxPayload := by
    intro slice member feature feature_mem
    exact holds.fits feature
      (List.mem_append_left _ (List.mem_flatten_of_mem member feature_mem))
  refine ⟨slices, ?_, rfl⟩
  have both := ((List.forall₂_and_left _ _).2 ⟨fits, stored.flip⟩).flip
  exact both.imp fun chunk slice ⟨small, own⟩ => own.contents lossless small

theorem Holds.contents {sorter : Sorter} {disk : Disk} {features : List Feature}
    (lossless : sorter.config.compress = true → Codec.Lossless) (holds : sorter.Holds disk features) :
    ∃ parts slices, sorter.chunks.map (Chunk.contents disk) = parts.map (⟨·, none⟩) ∧
      List.Forall₂ (StableOrder keyOf) slices parts ∧
      slices.flatten ++ sorter.buffer.toList = features := by
  obtain ⟨slices, stored, whole⟩ := holds.forall₂_contents lossless
  refine ⟨slices.map inKeyOrder, slices, ?_, forall₂_inKeyOrder slices, whole⟩
  rw [← List.forall₂_eq_eq_eq, List.map_map, List.forall₂_map_left_iff, List.forall₂_map_right_iff]
  exact stored

/-- A sorter whose features are handed over. -/
def emptied (sorter : Sorter) : Sorter :=
  { sorter with buffer := #[], bufferBytes := 0, chunks := [], phase := .handedOver }

/-- A sorter hands its features over to the merge of its chunks and its buffer. -/
theorem sort_of_merge {sorter : Sorter} {disk behind : Disk} {merge : Merge}
    (collecting : sorter.phase = .collecting)
    (started : Merge.ofRuns sorter.chunks (inKeyOrder sorter.buffer.toList) disk =
      (.ok merge, behind)) :
    sorter.sort disk = (.ok merge, sorter.emptied, behind) := by
  rw [Sorter.sort, collecting]
  dsimp only
  rw [started]
  rfl

/-- A sorter that collects can be sorted, and its merge hands out all features in key order. -/
theorem Holds.sort {sorter : Sorter} {disk : Disk} {features : List Feature}
    (lossless : sorter.config.compress = true → Codec.Lossless) (holds : sorter.Holds disk features) :
    ∃ merge after behind, sorter.sort disk = (.ok merge, after, behind) ∧
      after.counters = sorter.counters ∧
      merge.Yields behind ((inKeyOrder features).map .ok) := by
  obtain ⟨parts, slices, contents, sorted, rfl⟩ := holds.contents lossless
  have of_mem {chunk : Chunk} (member : chunk ∈ sorter.chunks) :
      ∃ part ∈ parts, chunk.contents disk = ⟨part, none⟩ := by
    have found := List.mem_map_of_mem (f := Chunk.contents disk) member
    rw [contents] at found
    obtain ⟨part, part_mem, same⟩ := List.mem_map.1 found
    exact ⟨part, part_mem, same.symm⟩
  have readable : ¬∃ chunk ∈ sorter.chunks, chunk.Unreadable disk := by
    rintro ⟨chunk, member, unreadable⟩
    obtain ⟨part, -, same⟩ := of_mem member
    exact Chunk.readable_of_fault (by rw [same]) unreadable
  have ascends : ∀ chunk ∈ sorter.chunks,
      (chunk.contents disk).features.Pairwise fun a b => a.key ≤ b.key := by
    intro chunk member
    obtain ⟨part, part_mem, same⟩ := of_mem member
    obtain ⟨slice, -, order⟩ := exists_left_of_forall₂ sorted part_mem
    rw [same]
    exact order.ascending.imp UInt64.le_iff_toNat_le.2
  have rest := stableOrder_inKeyOrder sorter.buffer.toList
  cases started : Merge.ofRuns sorter.chunks (inKeyOrder sorter.buffer.toList) disk with
  | mk result behind =>
      cases result with
      | error error => exact absurd (Merge.ofRuns_fails_iff.1 ⟨error, by rw [started]⟩) readable
      | ok merge =>
          refine ⟨merge, sorter.emptied, behind, sort_of_merge holds.collecting started, rfl, ?_⟩
          have yields := Merge.yields_ofRuns started ascends
            (rest.ascending.imp UInt64.le_iff_toNat_le.2)
          have joined := List.rel_append sorted (.cons rest .nil)
          have whole := handOut_inOrder joined
          rw [List.map_append, List.map_singleton, ← contents] at whole
          rw [whole, List.flatten_append, List.flatten_singleton] at yields
          exact yields

/-- Only a sorter that collects is sorted. -/
theorem collecting_of_merge {sorter after : Sorter} {disk behind : Disk} {merge : Merge}
    (sorted : sorter.sort disk = (.ok merge, after, behind)) : sorter.phase = .collecting := by
  rw [sort] at sorted
  split at sorted
  next => simp at sorted
  next => simp at sorted
  next collecting => exact collecting

end Sorter
end TileBindery
