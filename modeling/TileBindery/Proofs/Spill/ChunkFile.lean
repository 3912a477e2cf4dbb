import TileBindery.Proofs.Spill.RunContents

/-!
# Chunk files are read as they were written

A reader hands out what it has not read of its file, whether the file was read ahead or unpacked.
So it finds the header and the records where the writer put them.  The main statement says that the
file of a chunk holds the features that were written into it, in order, and can be read to its end.
-/

namespace TileBindery

namespace FileReader

/-- A reader hands out octets that it has not read, however far it has read ahead. -/
theorem take_of_unread {disk : Disk} {reader : FileReader} {front rest : Bytes}
    (unread : reader.unread disk = front ++ rest) :
    ∃ after, reader.take front.length disk = (some front, after) ∧ after.unread disk = rest := by
  have enough : front.length ≤ (reader.unread disk).length := by
    rw [unread, List.length_append]
    exact Nat.le_add_right _ _
  have finds : ∃ octets after, reader.take front.length disk = (some octets, after) := by
    rw [take]
    cases held : Bytes.take? front.length reader.pending with
    | some split => exact ⟨_, _, rfl⟩
    | none =>
        have fewer : reader.pending.length < front.length := by
          rw [Bytes.take?_eq] at held
          split at held
          · simp at held
          · omega
        have found : front.length - reader.pending.length ≤
            (((disk.contents reader.number).drop reader.position).take
              (max capacity (front.length - reader.pending.length))).length := by
          rw [FileReader.unread, List.length_append] at enough
          rw [List.length_take]
          omega
        simp only [fetch, Bytes.take?_eq, if_pos found]
        exact ⟨_, _, rfl⟩
  obtain ⟨octets, after, taken⟩ := finds
  have split := unread_take taken
  obtain ⟨rfl, left⟩ := List.append_inj (unread.symm.trans split.1) split.2.symm
  exact ⟨after, taken, left.symm⟩

/-- A file that ends before the octets asked for has nothing left. -/
theorem unread_of_take_none {count : Nat} {disk : Disk} {reader after : FileReader}
    (taken : reader.take count disk = (none, after)) : after.unread disk = [] := by
  rw [take] at taken
  split at taken
  · simp at taken
  · rw [fetch] at taken
    split at taken
    next lacks =>
      cases taken
      have short := (Bytes.take?_eq _ _).symm.trans lacks
      rw [ite_eq_right_iff] at short
      have fewer := mt short (by simp)
      simp only [unread, List.nil_append, List.drop_eq_nil_iff, List.length_take, List.length_drop]
      rw [List.length_take, List.length_drop] at fewer
      omega
    · simp at taken

@[simp]
theorem unread_ofNumber (number : Nat) (disk : Disk) :
    (ofNumber number).unread disk = disk.contents number := rfl

end FileReader

namespace ChunkBody

/-- The octets that a body has not handed out. -/
def unread (disk : Disk) : ChunkBody → Bytes
  | .plain file => file.unread disk
  | .unpacked source => source.octets

theorem take_of_unread {disk : Disk} {body : ChunkBody} {front rest : Bytes}
    (unread : body.unread disk = front ++ rest) :
    ∃ after, body.take front.length disk = (.ok front, after) ∧ after.unread disk = rest := by
  cases body with
  | plain file =>
      obtain ⟨after, taken, left⟩ := FileReader.take_of_unread unread
      exact ⟨.plain after, by simp only [take, taken], left⟩
  | unpacked source =>
      have octets : source.octets = front ++ rest := unread
      refine ⟨.unpacked { source with octets := rest }, ?_, rfl⟩
      simp only [take, ByteSource.take, octets, Bytes.take?_append]

/-- Fields of a known width are handed out as they were written. -/
theorem take_littleEndian {disk : Disk} {body : ChunkBody} {width value : Nat} {rest : Bytes}
    (unread : body.unread disk = Bytes.littleEndian width value ++ rest) :
    ∃ after, body.take width disk = (.ok (Bytes.littleEndian width value), after) ∧
      after.unread disk = rest := by
  have taken := take_of_unread unread
  rwa [Bytes.length_littleEndian] at taken

end ChunkBody

namespace ChunkHeader

theorem field_behind {width start count value : Nat} {rest : Bytes} (behind : count ≤ start) :
    field (Bytes.littleEndian count value ++ rest) start width =
      field rest (start - count) width := by
  rw [field, List.drop_append, Bytes.length_littleEndian,
    List.drop_of_length_le (by rwa [Bytes.length_littleEndian]), List.nil_append, field]

theorem field_first {width value : Nat} {rest : Bytes} (fits : value < 256 ^ width) :
    field (Bytes.littleEndian width value ++ rest) 0 width = value := by
  rw [field, List.drop_zero, List.take_left' (Bytes.length_littleEndian width value),
    Bytes.fromLittleEndian_littleEndian, Nat.mod_eq_of_lt fits]

theorem field_word (word : UInt32) (rest : Bytes) :
    UInt32.ofNat (field (Bytes.littleEndian 4 word.toNat ++ rest) 0 4) = word := by
  have fits : word.toNat < 256 ^ 4 := word.toNat_lt
  rw [field_first fits, UInt32.ofNat_toNat]

theorem field_long (word : UInt64) (rest : Bytes) :
    UInt64.ofNat (field (Bytes.littleEndian 8 word.toNat ++ rest) 0 8) = word := by
  have fits : word.toNat < 256 ^ 8 := word.toNat_lt
  rw [field_first fits, UInt64.ofNat_toNat]

@[simp]
theorem length_encode (header : ChunkHeader) : header.encode.length = size := by
  simp [encode, size]

/-- A header is read as it was written. -/
theorem decode_encode (header : ChunkHeader) : decode header.encode = header := by
  simp [decode, encode, field_behind, field_word, field_long]

@[simp]
theorem isValid_ofCounts (number count : UInt64) (compressed : Bool) :
    (ofCounts number count compressed).isValid = true := by
  simp [ofCounts, isValid]

@[simp]
theorem isCompressed_ofCounts (number count : UInt64) (compressed : Bool) :
    (ofCounts number count compressed).isCompressed = compressed := by
  cases compressed <;> simp [ofCounts, isCompressed]

end ChunkHeader

namespace ChunkRecord

/-- Features whose payloads fit are all stored. -/
theorem encodeAll_of_fits {features : List Feature}
    (fits : ∀ feature ∈ features, feature.payload.length ≤ maxPayload) :
    encodeAll features = .ok (features.flatMap encode) := by
  induction features with
  | nil => rfl
  | cons feature rest ih =>
      have small := Nat.not_lt.2 (fits feature List.mem_cons_self)
      have behind := ih fun other member => fits other (List.mem_cons_of_mem _ member)
      rw [encodeAll, if_neg small, behind]
      rfl

theorem encodeAll_cons {feature : Feature} {rest : List Feature} {records : Bytes} :
    encodeAll (feature :: rest) = .ok records ↔
      feature.payload.length ≤ maxPayload ∧
        ∃ behind, encodeAll rest = .ok behind ∧ records = encode feature ++ behind := by
  rw [encodeAll]
  by_cases large : maxPayload < feature.payload.length
  · simp only [if_pos large, reduceCtorEq, false_iff]
    rintro ⟨fits, -⟩
    exact Nat.not_lt.2 fits large
  · cases behind : encodeAll rest with
    | error error => simp [large, Except.map]
    | ok octets => simp [large, Except.map, Nat.not_lt.1 large, eq_comm]

theorem fits_of_encodeAll {features : List Feature} {records : Bytes}
    (encoded : encodeAll features = .ok records) :
    ∀ feature ∈ features, feature.payload.length ≤ maxPayload := by
  induction features generalizing records with
  | nil => exact fun _ member => absurd member List.not_mem_nil
  | cons feature rest ih =>
      obtain ⟨fits, behind, encoded_rest, -⟩ := encodeAll_cons.1 encoded
      exact List.forall_mem_cons.2 ⟨fits, ih encoded_rest⟩

end ChunkRecord

namespace StoredRecord

/-- The octets of a record, with the check value that stands behind its feature. -/
def octets (record : StoredRecord) : Bytes :=
  ChunkRecord.content record.feature ++ Bytes.littleEndian 4 record.stored.toNat

/-- What is written of a feature is its record with the check value that belongs to it. -/
theorem encode_eq (feature : Feature) : ChunkRecord.encode feature =
    octets ⟨feature, Crc32.checksum (ChunkRecord.content feature)⟩ := rfl

end StoredRecord

namespace ChunkReader

open ChunkBody

/-- A record is read as it is stored, whatever its check value. -/
theorem record_of_unread {disk : Disk} {body : ChunkBody} {stored : StoredRecord} {rest : Bytes}
    (fits : stored.feature.payload.length ≤ ChunkRecord.maxPayload)
    (unread : body.unread disk = stored.octets ++ rest) :
    ∃ after, record disk body = (.ok stored, after) ∧ after.unread disk = rest := by
  obtain ⟨feature, check⟩ := stored
  have key_lt : feature.key.toNat < 256 ^ 8 := feature.key.toNat_lt
  have check_lt : check.toNat < 256 ^ 4 := check.toNat_lt
  have length_lt : feature.payload.length < 256 ^ 4 := by
    simp only [ChunkRecord.maxPayload] at fits
    omega
  simp only [StoredRecord.octets, ChunkRecord.content, List.append_assoc] at unread
  obtain ⟨behind_key, key, unread⟩ := take_littleEndian unread
  obtain ⟨behind_length, length, unread⟩ := take_littleEndian unread
  obtain ⟨behind_payload, payload, unread⟩ := take_of_unread unread
  obtain ⟨after, value, unread⟩ := take_littleEndian unread
  refine ⟨after, ?_, unread⟩
  simp only [record, recordTail, key, length, payload, value,
    Bytes.fromLittleEndian_littleEndian, Nat.mod_eq_of_lt key_lt, Nat.mod_eq_of_lt length_lt]
  rw [Nat.mod_eq_of_lt check_lt, UInt32.ofNat_toNat, UInt64.ofNat_toNat]

theorem next_of_unread {disk : Disk} {reader : ChunkReader} {feature : Feature} {rest : Bytes}
    (left : reader.remaining ≠ 0) (fits : feature.payload.length ≤ ChunkRecord.maxPayload)
    (unread : reader.body.unread disk = ChunkRecord.encode feature ++ rest) :
    ∃ body, reader.next disk =
        (.ok (some feature), { reader with remaining := reader.remaining - 1, body }) ∧
      body.unread disk = rest := by
  rw [StoredRecord.encode_eq] at unread
  obtain ⟨body, found, unread⟩ := record_of_unread fits unread
  refine ⟨body, ?_, unread⟩
  rw [next, if_neg left, found]
  exact if_pos rfl

/-- Stored features are read in order. -/
theorem contents_of_unread (rest : Bytes) {disk : Disk} {reader : ChunkReader}
    {features : List Feature} (count : reader.remaining = features.length)
    (fits : ∀ feature ∈ features, feature.payload.length ≤ ChunkRecord.maxPayload)
    (unread : reader.body.unread disk = features.flatMap ChunkRecord.encode ++ rest) :
    reader.contents disk = ⟨features, none⟩ := by
  have read : reader.readAll disk = (features, .ok ()) := by
    induction features generalizing reader with
    | nil =>
        have ended : reader.next disk = (.ok none, reader) := if_pos count
        exact readAll_of_none ended
    | cons feature features ih =>
        rw [List.flatMap_cons, List.append_assoc] at unread
        have left : reader.remaining ≠ 0 := by simp [count]
        obtain ⟨body, found, unread⟩ := next_of_unread left (fits feature List.mem_cons_self) unread
        have behind : readAll disk { reader with remaining := reader.remaining - 1, body } = _ :=
          ih (by simp [count]) (fun other member => fits other (List.mem_cons_of_mem _ member))
            unread
        rw [readAll_of_some found, behind]
  rw [contents, read]
  rfl

end ChunkReader

/-- Plain settings pack nothing, so nothing is lost. -/
theorem SpillConfig.lossless_of_plain [Codec] {config : SpillConfig}
    (plain : config.compress = false) : config.compress = true → Codec.Lossless := by
  rw [plain]
  exact nofun

namespace Chunk

variable [Codec]

/-- A chunk that can be read to its end can be opened, and its first feature can be read. -/
theorem readable_of_fault {disk : Disk} {chunk : Chunk}
    (sound : (chunk.contents disk).fault = none) : ¬chunk.Unreadable disk := by
  rintro (⟨error, closed⟩ | ⟨reader, error, opened, failed⟩)
  · simp [contents, closed] at sound
  · have taken : reader.next disk = (.error error, (reader.next disk).2) := Prod.ext failed rfl
    simp [contents, opened, ChunkReader.contents, ChunkReader.readAll_of_error taken,
      RunContents.ofResult] at sound

/-- A chunk is opened at a header that is known. -/
theorem openPath_of_header {disk : Disk} {path : String} {header : ChunkHeader} {rest : Bytes}
    {file : Nat} (found : disk.fileAt (Path.ofText path) = .ok file)
    (holds : disk.contents file = header.encode ++ rest) (valid : header.isValid = true) :
    ∃ behind, ChunkReader.openPath path disk =
        .ok ⟨path, header, header.count.toNat, .ofFile header behind disk⟩ ∧
      behind.unread disk = rest := by
  have unread : (FileReader.ofNumber file).unread disk = header.encode ++ rest := holds
  obtain ⟨behind, taken, unread⟩ := FileReader.take_of_unread unread
  rw [ChunkHeader.length_encode] at taken
  refine ⟨behind, ?_, unread⟩
  simp only [ChunkReader.openPath, found, ChunkReader.ofFile, taken, ChunkHeader.decode_encode,
    valid, if_true]

/-- The body of a chunk without compression is read as it stands in the file. -/
theorem openPath_of_plain {disk : Disk} {path : String} {number count : UInt64} {rest : Bytes}
    {file : Nat} (found : disk.fileAt (Path.ofText path) = .ok file)
    (holds : disk.contents file = (ChunkHeader.ofCounts number count false).encode ++ rest) :
    ∃ behind, ChunkReader.openPath path disk =
        .ok ⟨path, .ofCounts number count false, count.toNat, .plain behind⟩ ∧
      behind.unread disk = rest := by
  obtain ⟨behind, opened, unread⟩ := openPath_of_header found holds (by simp)
  rw [ChunkBody.ofFile, if_neg (by simp)] at opened
  exact ⟨behind, opened, unread⟩

/-- A chunk holds the features that its header counts and whose records its body unpacks to. -/
theorem contents_of_packed {disk : Disk} {chunk : Chunk} {features : List Feature} {number : UInt64}
    {packed : Bytes} {file : Nat} (found : disk.fileAt (Path.ofText chunk.path) = .ok file)
    (holds : disk.contents file =
      (ChunkHeader.ofCounts number (UInt64.ofNat features.length) true).encode ++ packed)
    (unpacks : Codec.unpack packed = .ofBytes (features.flatMap ChunkRecord.encode))
    (fits : ∀ feature ∈ features, feature.payload.length ≤ ChunkRecord.maxPayload)
    (few : features.length < 2 ^ 64) : chunk.contents disk = ⟨features, none⟩ := by
  obtain ⟨behind, opened, unread⟩ := openPath_of_header found holds (by simp)
  rw [contents, opened]
  refine ChunkReader.contents_of_unread [] (UInt64.toNat_ofNat_of_lt' few) fits ?_
  rw [ChunkBody.ofFile, if_pos (by simp), unread, unpacks, List.append_nil]
  rfl

/-- The file of a chunk holds the features that were written into it, if nothing is lost where bodies
are packed. -/
theorem contents_of_encode {disk : Disk} {chunk : Chunk} {features : List Feature}
    {config : SpillConfig} {number file : Nat}
    (lossless : config.compress = true → Codec.Lossless)
    (found : disk.fileAt (Path.ofText chunk.path) = .ok file)
    (written : encode number features config = .ok (disk.contents file))
    (fits : ∀ feature ∈ features, feature.payload.length ≤ ChunkRecord.maxPayload)
    (few : features.length < 2 ^ 64) : chunk.contents disk = ⟨features, none⟩ := by
  simp only [encode, ChunkRecord.encodeAll_of_fits fits, Except.map, Except.ok.injEq] at written
  cases compress : config.compress with
  | true =>
      rw [compress, if_pos rfl] at written
      exact contents_of_packed found written.symm (lossless compress _ _) fits few
  | false =>
      rw [compress, if_neg Bool.false_ne_true] at written
      obtain ⟨behind, opened, unread⟩ := openPath_of_plain found written.symm
      rw [contents, opened]
      refine ChunkReader.contents_of_unread [] (UInt64.toNat_ofNat_of_lt' few) fits ?_
      rw [List.append_nil]
      exact unread

end Chunk
end TileBindery
