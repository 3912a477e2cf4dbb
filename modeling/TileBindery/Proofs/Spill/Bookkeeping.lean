import Mathlib.Algebra.Ring.Nat
import TileBindery.Proofs.Spill.SorterHistory

/-!
# The books of a sorter

A sorter keeps an estimate of what its buffer takes, numbers its chunks, and counts features, chunks
and octets.  The main statement says that after any number of features has been accepted all of these
agree with what lies in the buffer and in the chunk files, and that the buffer is below its limits.
-/

namespace TileBindery

namespace ChunkRecord

/-- Octets of a record: the key, the length and the check value besides the payload. -/
def size (feature : Feature) : Nat := 16 + feature.payload.length

theorem length_encode (feature : Feature) : (encode feature).length = size feature := by
  simp only [encode, content, size, List.length_append, Bytes.length_littleEndian]
  omega

theorem length_encodeAll {features : List Feature} {records : Bytes}
    (encoded : encodeAll features = .ok records) : records.length = (features.map size).sum := by
  rw [encodeAll_of_fits (fits_of_encodeAll encoded), Except.ok.injEq] at encoded
  simp [← encoded, List.length_flatMap, length_encode]

end ChunkRecord

namespace Chunk

variable [Codec]

/-- A chunk of a sorter tells what its file holds. -/
structure Filed (directory : String) (config : SpillConfig) (disk : Disk) (chunk : Chunk)
    (slice : List Feature) : Prop where
  /-- The file holds a slice of the features. -/
  holds : chunk.Holds directory config disk slice
  /-- There are some. -/
  nonempty : slice ≠ []
  /-- The chunk tells how many. -/
  count : chunk.count = slice.length
  /-- It tells the size of the file. -/
  size : ∃ octets, disk.read (Path.ofText chunk.path) = .ok octets ∧ octets.length = chunk.size

variable {directory : String} {config : SpillConfig} {disk other : Disk} {chunk : Chunk}
  {slice : List Feature}

theorem Filed.of_read (filed : chunk.Filed directory config disk slice)
    (same : ∀ octets, disk.read (Path.ofText chunk.path) = .ok octets → octets ≠ [] →
      other.read (Path.ofText chunk.path) = .ok octets) :
    chunk.Filed directory config other slice := by
  obtain ⟨octets, encoded, found⟩ := filed.holds.stored
  obtain ⟨held, held_found, size⟩ := filed.size
  obtain rfl : held = octets := Except.ok.inj (held_found.symm.trans found)
  exact ⟨filed.holds.of_read same, filed.nonempty, filed.count, held,
    same held found (ne_nil_of_encode encoded), size⟩

/-- The file of a chunk that is not compressed takes its header and a record for each feature. -/
theorem Filed.size_of_plain (filed : chunk.Filed directory config disk slice)
    (plain : config.compress = false) :
    chunk.size = ChunkHeader.size + (slice.map ChunkRecord.size).sum := by
  obtain ⟨octets, encoded, found⟩ := filed.holds.stored
  obtain ⟨held, held_found, size⟩ := filed.size
  obtain rfl : held = octets := Except.ok.inj (held_found.symm.trans found)
  rw [encode, plain] at encoded
  cases body : ChunkRecord.encodeAll (Sorter.inKeyOrder slice) with
  | error error => simp [body, Except.map] at encoded
  | ok records =>
      simp only [body, Except.map, Bool.false_eq_true, if_false, Except.ok.injEq] at encoded
      have order := (Sorter.stableOrder_inKeyOrder slice).perm
      rw [← size, ← encoded, List.length_append, ChunkHeader.length_encode,
        ChunkRecord.length_encodeAll body, (order.map ChunkRecord.size).sum_nat]

end Chunk

namespace Sorter

variable {sorter after : Sorter} {disk behind other : Disk} {features : List Feature}
  {feature : Feature} {chunk : Chunk}

/-- The buffer is below its limits. -/
theorem below_of_room (room : sorter.isFull = false) :
    sorter.bufferBytes < sorter.config.chunkBytes ∧
      ∀ limit, sorter.config.chunkFeatures = some limit → sorter.buffer.size < limit := by
  simp only [isFull, Bool.or_eq_false_iff, decide_eq_false_iff_not, Nat.not_le] at room
  refine ⟨room.1, fun limit set => ?_⟩
  simpa [set] using room.2

variable [Codec]

/-- A sorter collects, and its books agree with what it has accepted. -/
structure Balanced (sorter : Sorter) (disk : Disk) (features : List Feature) : Prop where
  /-- It holds all features. -/
  holds : sorter.Holds disk features
  /-- The chunks hold slices of them, in order of arrival, and the buffer holds the rest. -/
  slices : ∃ slices : List (List Feature),
    List.Forall₂ (Chunk.Filed sorter.directory sorter.config disk) sorter.chunks slices ∧
      slices.flatten ++ sorter.buffer.toList = features
  /-- The chunks are numbered from zero on. -/
  numbers : sorter.chunks.map Chunk.number = List.range sorter.chunks.length
  /-- The next chunk gets the next number. -/
  next : sorter.nextChunk = sorter.chunks.length
  /-- The estimate counts what is in the buffer. -/
  bytes : sorter.bufferBytes = (sorter.buffer.toList.map estimatedSize).sum
  /-- All chunks have been counted. -/
  spilled : sorter.counters.chunksSpilled = sorter.chunks.length
  /-- So have the octets of their files. -/
  written : sorter.counters.bytesSpilled = (sorter.chunks.map Chunk.size).sum

theorem forall₂_filed_of_undisturbed {slices : List (List Feature)}
    (same : sorter.Undisturbed disk other)
    (filed : List.Forall₂ (Chunk.Filed sorter.directory sorter.config disk) sorter.chunks slices) :
    List.Forall₂ (Chunk.Filed sorter.directory sorter.config other) sorter.chunks slices := by
  have both := (List.forall₂_and_left _ _).2 ⟨same, filed⟩
  exact both.imp fun chunk slice ⟨still, own⟩ => own.of_read still

theorem balanced_fresh {directory : String} {config : SpillConfig} (disk : Disk)
    (valid : config.check = .ok ()) : (fresh directory config).Balanced disk [] where
  holds := holds_fresh disk valid
  slices := ⟨[], .nil, rfl⟩
  numbers := rfl
  next := rfl
  bytes := rfl
  spilled := rfl
  written := rfl

theorem Balanced.of_undisturbed (balanced : sorter.Balanced disk features)
    (same : sorter.Undisturbed disk other) : sorter.Balanced other features := by
  obtain ⟨slices, filed, whole⟩ := balanced.slices
  exact { balanced with
    holds := balanced.holds.of_undisturbed same
    slices := ⟨slices, forall₂_filed_of_undisturbed same filed, whole⟩ }

theorem Balanced.bytes_push (balanced : sorter.Balanced disk features) :
    (sorter.push feature).bufferBytes =
      ((sorter.push feature).buffer.toList.map estimatedSize).sum := by
  simp [push, balanced.bytes]

/-- A feature that leaves room in the buffer keeps the books. -/
theorem Balanced.push (balanced : sorter.Balanced disk features)
    (fits : feature.payload.length ≤ ChunkRecord.maxPayload)
    (room : (sorter.push feature).isFull = false) :
    (sorter.push feature).Balanced disk (features ++ [feature]) := by
  obtain ⟨slices, filed, rfl⟩ := balanced.slices
  exact { balanced with
    holds := balanced.holds.push fits room
    slices := ⟨slices, filed, by simp [Sorter.push]⟩
    bytes := balanced.bytes_push }

/-- Moving a full buffer to a chunk file keeps the books. -/
theorem Balanced.spill (bytes : sorter.config.chunkBytes < 2 ^ 64)
    (balanced : sorter.Balanced disk features)
    (fits : feature.payload.length ≤ ChunkRecord.maxPayload)
    (written : (sorter.push feature).writeBuffer disk = (.ok chunk, behind)) :
    ((sorter.push feature).stored chunk).Balanced behind (features ++ [feature]) := by
  obtain ⟨octets, -, shape, placed⟩ := Chunk.stored_of_write written
  have undisturbed := balanced.holds.undisturbed written
  have last : chunk.Filed sorter.directory sorter.config behind
      (sorter.push feature).buffer.toList := by
    refine ⟨balanced.holds.written bytes written, ?_, ?_, ?_⟩
    · simp [Sorter.push]
    · rw [shape]
      exact (stableOrder_inKeyOrder _).perm.length_eq
    · rw [shape]
      exact ⟨octets, placed.read, rfl⟩
  have number : chunk.number = sorter.chunks.length := by
    rw [shape]
    exact balanced.next
  obtain ⟨slices, filed, rfl⟩ := balanced.slices
  refine ⟨balanced.holds.spill bytes fits written, ⟨slices ++ [(sorter.push feature).buffer.toList],
    List.rel_append (forall₂_filed_of_undisturbed undisturbed filed) (.cons last .nil), ?_⟩,
    ?_, ?_, rfl, ?_, ?_⟩
  · simp [Sorter.push, Sorter.stored]
  · simp [Sorter.stored, Sorter.push, balanced.numbers, number, List.range_succ]
  · simp [Sorter.stored, Sorter.push, balanced.next]
  · simp [Sorter.stored, Sorter.push, balanced.spilled]
  · simp [Sorter.stored, Sorter.push, balanced.written]

/-- An accepted feature keeps the books. -/
theorem Balanced.add (bytes : sorter.config.chunkBytes < 2 ^ 64)
    (balanced : sorter.Balanced disk features)
    (accepted : sorter.add feature disk = (.ok (), after, behind)) :
    after.Balanced behind (features ++ [feature]) ∧ after.config = sorter.config ∧
      after.directory = sorter.directory := by
  have result := added sorter feature disk
  rw [accepted] at result
  cases result with
  | buffered fits _ room => exact ⟨balanced.push fits room, rfl, rfl⟩
  | spilled fits _ written => exact ⟨balanced.spill bytes fits written, rfl, rfl⟩

/-- Features are counted where they are. -/
theorem Balanced.counted (balanced : sorter.Balanced disk features) :
    sorter.counters.featuresAdded =
      (sorter.chunks.map Chunk.count).sum + sorter.buffer.size := by
  obtain ⟨slices, filed, whole⟩ := balanced.slices
  have counts : sorter.chunks.map Chunk.count = slices.map List.length := by
    rw [← List.forall₂_eq_eq_eq, List.forall₂_map_left_iff, List.forall₂_map_right_iff]
    exact filed.imp fun _ _ own => own.count
  rw [balanced.holds.counted, ← whole, List.length_append, List.length_flatten, counts,
    Array.length_toList]

/-! ### Histories -/

end Sorter

/-- A feature was accepted, or others changed the disk. -/
def SorterEvent.Adds : SorterEvent → Prop
  | .add _ answer => answer = .ok ()
  | .sort _ => False
  | .change => True

namespace Sorter

section

variable [Codec]

/-- As long as features are accepted, the books agree with them. -/
theorem balanced_of_history {state last : Sorter × Disk} {events : List SorterEvent}
    {held : List Feature} (history : History Step state events last)
    (bytes : state.1.config.chunkBytes < 2 ^ 64) (adds : ∀ event ∈ events, event.Adds)
    (balanced : state.1.Balanced state.2 held) :
    last.1.Balanced last.2 (held ++ SorterEvent.accepted events) ∧
      last.1.config = state.1.config ∧ last.1.directory = state.1.directory := by
  induction history generalizing held with
  | nil => exact ⟨by rwa [SorterEvent.accepted, List.append_nil], rfl, rfl⟩
  | @cons state next last event events step rest ih =>
      obtain ⟨first, others⟩ := List.forall_mem_cons.1 adds
      cases step with
      | add sorter disk feature =>
          cases outcome : sorter.add feature disk with
          | mk answer behind =>
              obtain ⟨after, changed⟩ := behind
              rw [outcome] at first rest ih
              cases (first : answer = .ok ())
              obtain ⟨next_balanced, config, directory⟩ := balanced.add bytes outcome
              obtain ⟨last_balanced, same, still⟩ := ih (config ▸ bytes) others next_balanced
              rw [List.append_assoc] at last_balanced
              exact ⟨last_balanced, same.trans config, still.trans directory⟩
      | sort sorter disk => exact absurd first not_false
      | change same => exact ih bytes others (balanced.of_undisturbed same)

/-- After any number of accepted features, the estimate of the buffer is exact and below its limit, as
is the number of features in the buffer; the chunks are numbered from zero on, and each holds, in
stable key order, a part of what was accepted, which can be read back if packing loses nothing: these
parts are not empty and follow each other in order of arrival, and the buffer holds the rest; and the
counters tell how many features lie in chunks and buffer, how many chunks there are and what their
files take. -/
theorem books_agree {directory : String} {config : SpillConfig} {disk begun left : Disk}
    {sorter last : Sorter} {events : List SorterEvent} (bytes : config.chunkBytes < 2 ^ 64)
    (created : create directory config disk = (.ok sorter, begun))
    (history : History Step (sorter, begun) events (last, left))
    (adds : ∀ event ∈ events, event.Adds) :
    last.bufferBytes =
      (last.buffer.toList.map fun feature => feature.payload.length + 32).sum ∧
    last.bufferBytes < config.chunkBytes ∧
    (∀ limit, config.chunkFeatures = some limit → last.buffer.size < limit) ∧
    last.chunks.map Chunk.number = List.range last.chunks.length ∧
    (∃ slices : List (List Feature),
      List.Forall₂ (fun chunk slice =>
        slice ≠ [] ∧ chunk.count = slice.length ∧
        (∃ part, StableOrder keyOf slice part ∧
          ((config.compress = true → Codec.Lossless) → chunk.contents left = ⟨part, none⟩)) ∧
        (∃ octets, left.read (Path.ofText (Chunk.chunkPath directory chunk.number)) = .ok octets ∧
          octets.length = chunk.size) ∧
        (config.compress = false →
          chunk.size = 32 + (slice.map fun feature => 16 + feature.payload.length).sum))
        last.chunks slices ∧
      slices.flatten ++ last.buffer.toList = SorterEvent.accepted events) ∧
    last.counters.featuresAdded = (last.chunks.map Chunk.count).sum + last.buffer.size ∧
    last.counters.chunksSpilled = last.chunks.length ∧
    last.counters.bytesSpilled = (last.chunks.map Chunk.size).sum := by
  obtain ⟨valid, rfl⟩ := eq_fresh_of_create created
  obtain ⟨balanced, same, still⟩ :=
    balanced_of_history history bytes adds (balanced_fresh begun valid)
  obtain ⟨own, limit⟩ := below_of_room balanced.holds.room
  dsimp only at balanced same still
  rw [same] at own limit
  obtain ⟨slices, filed, whole⟩ := balanced.slices
  rw [same, still] at filed
  refine ⟨?_, own, limit, balanced.numbers, ⟨slices, ?_, whole⟩, balanced.counted,
    balanced.spilled, balanced.written⟩
  · exact balanced.bytes
  · have fits : ∀ slice ∈ slices, ∀ feature ∈ slice,
        feature.payload.length ≤ ChunkRecord.maxPayload := by
      intro slice member feature own
      refine balanced.holds.fits feature (whole ▸ ?_)
      exact List.mem_append_left _ (List.mem_flatten_of_mem member own)
    have both := ((List.forall₂_and_left _ _).2 ⟨fits, filed.flip⟩).flip
    refine both.imp fun chunk slice ⟨small, own⟩ => ⟨own.nonempty, own.count, ?_, ?_, ?_⟩
    · exact ⟨inKeyOrder slice, stableOrder_inKeyOrder slice, fun lossless =>
        own.holds.contents lossless small⟩
    · have path : chunk.path = Chunk.chunkPath directory chunk.number := own.holds.path
      exact path ▸ own.size
    · exact own.size_of_plain

/-- Accepting features one after the other is a history of a sorter. -/
theorem history_of_addAll {sorter full : Sorter} {disk filled : Disk} {features : List Feature}
    {count : Nat} (accepted : sorter.addAll features disk = (count, .ok (), full, filled)) :
    History Step (sorter, disk) (features.map fun feature => .add feature (.ok ()))
      (full, filled) := by
  induction features generalizing sorter disk count with
  | nil =>
      cases accepted
      exact .nil _
  | cons feature rest ih =>
      rw [addAll] at accepted
      split at accepted
      · simp at accepted
      next next_sorter next_disk taken =>
        simp only [Prod.mk.injEq] at accepted
        have step := Step.add sorter disk feature
        rw [taken] at step
        exact .cons step (ih (Prod.ext rfl accepted.2))

end

section

attribute [local instance] Frame.codec

theorem books_agree_eager :
    ∃ full filled,
      create "/run" eagerConfig .empty = (.ok (fresh "/run" eagerConfig), runDisk) ∧
      History Step (fresh "/run" eagerConfig, runDisk)
        [.add ⟨5, [1]⟩ (.ok ()), .add ⟨3, [2]⟩ (.ok ())] (full, filled) ∧
      full.buffer.size < 1 ∧
      full.chunks.map Chunk.number = List.range full.chunks.length ∧
      full.counters.featuresAdded = (full.chunks.map Chunk.count).sum + full.buffer.size ∧
      full.counters.bytesSpilled = (full.chunks.map Chunk.size).sum := by
  have created : create "/run" eagerConfig .empty = (.ok (fresh "/run" eagerConfig), runDisk) := by
    rfl
  obtain ⟨count, full, accepted⟩ := addAll_eager
  have history := history_of_addAll accepted
  obtain ⟨-, -, few, numbers, -, added, -, written⟩ :=
    books_agree (by decide) created history (by simp [SorterEvent.Adds])
  exact ⟨full, _, created, history, few 1 rfl, numbers, added, written⟩

end

end Sorter
end TileBindery
