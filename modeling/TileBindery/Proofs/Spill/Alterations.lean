import TileBindery.Proofs.Crc32
import TileBindery.Proofs.Spill.ChunkFormat

/-!
# Altered records

A change of up to four octets in a row inside the key, the payload or the check value of a record
leaves a record whose check value is wrong.  So a reader that comes to it reports the two check
values instead of a feature.  It passes over the record but still counts it as unread: on further
calls it hands out the records behind, and then finds the end where one more is announced.
-/

namespace TileBindery

namespace Bytes

/-- Octets have been altered, but none outside of the `width` octets behind the first `place`. -/
structure AlteredAt (place width : Nat) (octets altered : Bytes) : Prop where
  length : altered.length = octets.length
  differ : altered ≠ octets
  outside : ∀ index, index < place ∨ place + width ≤ index → altered[index]? = octets[index]?

namespace AlteredAt

variable {place width : Nat} {octets altered : Bytes}

theorem take_eq (alteration : AlteredAt place width octets altered) {count : Nat}
    (le : count ≤ place) : altered.take count = octets.take count := by
  refine List.ext_getElem? fun index => ?_
  rw [List.getElem?_take, List.getElem?_take]
  split
  · exact alteration.outside index (.inl (by omega))
  · rfl

theorem drop_eq (alteration : AlteredAt place width octets altered) {count : Nat}
    (le : place + width ≤ count) : altered.drop count = octets.drop count := by
  refine List.ext_getElem? fun index => ?_
  rw [List.getElem?_drop, List.getElem?_drop]
  exact alteration.outside _ (.inr (by omega))

/-- What is altered in the middle of some octets leaves both ends. -/
theorem middle {head middle tail : Bytes}
    (alteration : AlteredAt place width (head ++ (middle ++ tail)) altered)
    (starts : head.length ≤ place) (ends : place + width ≤ head.length + middle.length) :
    ∃ changed, altered = head ++ (changed ++ tail) ∧
      AlteredAt (place - head.length) width middle changed := by
  have front : altered.take head.length = head := by
    rw [alteration.take_eq starts, List.take_left]
  obtain ⟨rest, rfl⟩ : head <+: altered := front ▸ List.take_prefix _ _
  have back : rest.drop middle.length = tail := by
    have same := alteration.drop_eq ends
    rwa [← List.drop_drop, ← List.drop_drop, List.drop_left, List.drop_left, List.drop_left] at same
  obtain ⟨changed, rfl⟩ : tail <:+ rest := back ▸ List.drop_suffix _ _
  have length : changed.length = middle.length := by
    simpa using alteration.length
  refine ⟨changed, rfl, length, ?_, fun index apart => ?_⟩
  · rintro rfl
    exact alteration.differ rfl
  · by_cases inner : index < middle.length
    · have same := alteration.outside (head.length + index) (by omega)
      simpa [List.getElem?_append_right, List.getElem?_append_left, inner, length] using same
    · rw [List.getElem?_eq_none (by omega), List.getElem?_eq_none (by omega)]

theorem of_parts {front old new behind : Bytes} (length : new.length = old.length)
    (differ : new ≠ old) :
    AlteredAt front.length old.length (front ++ (old ++ behind)) (front ++ (new ++ behind)) where
  length := by simp [length]
  differ same := differ (List.append_cancel_right (List.append_cancel_left same))
  outside index apart := by
    by_cases before : index < front.length
    · rw [List.getElem?_append_left before, List.getElem?_append_left before]
    · rw [List.getElem?_append_right (by omega), List.getElem?_append_right (by omega),
        List.getElem?_append_right (by omega), List.getElem?_append_right (by omega), length]

/-- Octets are the altered ones and what stands around them. -/
theorem exists_parts (alteration : AlteredAt place width octets altered)
    (ends : place + width ≤ octets.length) :
    ∃ front old new behind, octets = front ++ (old ++ behind) ∧
      altered = front ++ (new ++ behind) ∧ old.length = width ∧ new.length = width ∧ new ≠ old := by
  have split : octets =
      octets.take place ++ ((octets.drop place).take width ++ octets.drop (place + width)) := by
    rw [← List.drop_drop, List.take_append_drop, List.take_append_drop]
  have width_eq : ((octets.drop place).take width).length = width := by
    rw [List.length_take, List.length_drop]
    omega
  have place_eq : (octets.take place).length = place := by
    rw [List.length_take]
    omega
  rw [split] at alteration
  obtain ⟨new, shape, change⟩ := alteration.middle (by omega) (by omega)
  exact ⟨_, _, new, _, split, shape, width_eq, change.length.trans width_eq, change.differ⟩

end AlteredAt

end Bytes

/-! ### Records -/

namespace Bytes

theorem exists_word {octets : Bytes} (width : octets.length = 4) :
    ∃ word : UInt32, octets = littleEndian 4 word.toNat := by
  have value_lt := fromLittleEndian_lt octets
  have written := littleEndian_fromLittleEndian octets
  rw [width] at value_lt written
  exact ⟨.ofNat (fromLittleEndian octets), by rw [UInt32.toNat_ofNat_of_lt' value_lt, written]⟩

theorem exists_long {octets : Bytes} (width : octets.length = 8) :
    ∃ long : UInt64, octets = littleEndian 8 long.toNat := by
  have value_lt := fromLittleEndian_lt octets
  have written := littleEndian_fromLittleEndian octets
  rw [width] at value_lt written
  exact ⟨.ofNat (fromLittleEndian octets), by rw [UInt64.toNat_ofNat_of_lt' value_lt, written]⟩

end Bytes

/-- The parts of a record that a check value tells. -/
inductive RecordPart where
  | key
  | payload
  /-- The check value itself. -/
  | check
  deriving DecidableEq, Repr

namespace RecordPart

open ChunkRecord Bytes

/-- The octets of a record in front of a part. -/
def before : RecordPart → Feature → Bytes
  | .key, _ => []
  | .payload, feature =>
      Bytes.littleEndian 8 feature.key.toNat ++ Bytes.littleEndian 4 feature.payload.length
  | .check, feature => content feature

/-- The octets of a part. -/
def octets : RecordPart → Feature → Bytes
  | .key, feature => Bytes.littleEndian 8 feature.key.toNat
  | .payload, feature => feature.payload
  | .check, feature => Bytes.littleEndian 4 (Crc32.checksum (content feature)).toNat

/-- The octets of a record behind a part. -/
def behind : RecordPart → Feature → Bytes
  | .key, feature =>
      Bytes.littleEndian 4 feature.payload.length ++ (feature.payload ++ octets .check feature)
  | .payload, feature => octets .check feature
  | .check, _ => []

theorem encode_eq (part : RecordPart) (feature : Feature) :
    encode feature = part.before feature ++ (part.octets feature ++ part.behind feature) := by
  cases part <;> simp [encode, content, before, octets, behind]

variable {place width : Nat} {changed : Bytes}

theorem checksum_ne_of_altered {octets : Bytes} (alteration : AlteredAt place width octets changed)
    (narrow : width ≤ 4) (ends : place + width ≤ octets.length) (front behind : Bytes) :
    Crc32.checksum (front ++ (octets ++ behind)) ≠
      Crc32.checksum (front ++ (changed ++ behind)) := by
  obtain ⟨head, old, new, tail, rfl, rfl, old_width, new_width, differ⟩ :=
    alteration.exists_parts ends
  have apart := Crc32.checksum_ne (by omega) (new_width.trans old_width.symm) differ
    (front ++ head) (tail ++ behind)
  simpa only [List.append_assoc] using apart.symm

/-- A record that has been altered in one of these parts is a record with a wrong check value. -/
theorem exists_stored (part : RecordPart) {feature : Feature}
    (alteration : AlteredAt place width (part.octets feature) changed) (narrow : width ≤ 4)
    (ends : place + width ≤ (part.octets feature).length) :
    ∃ record : StoredRecord,
      part.before feature ++ (changed ++ part.behind feature) = record.octets ∧
      record.feature.payload.length = feature.payload.length ∧
      record.stored ≠ Crc32.checksum (content record.feature) := by
  cases part with
  | key =>
      obtain ⟨key, rfl⟩ := exists_long (alteration.length.trans (length_littleEndian _ _))
      refine ⟨⟨⟨key, feature.payload⟩, Crc32.checksum (content feature)⟩, ?_, rfl, ?_⟩
      · simp [StoredRecord.octets, content, before, behind, octets]
      · have apart := checksum_ne_of_altered alteration narrow ends []
          (Bytes.littleEndian 4 feature.payload.length ++ feature.payload)
        simpa [content, octets] using apart
  | payload =>
      refine ⟨⟨⟨feature.key, changed⟩, Crc32.checksum (content feature)⟩, ?_, alteration.length, ?_⟩
      · simp [StoredRecord.octets, content, before, behind, octets, alteration.length]
      · have apart := checksum_ne_of_altered alteration narrow ends (before .payload feature) []
        simpa [content, before, octets, alteration.length] using apart
  | check =>
      obtain ⟨stored, rfl⟩ := exists_word (alteration.length.trans (length_littleEndian _ _))
      refine ⟨⟨feature, stored⟩, ?_, rfl, ?_⟩
      · simp [StoredRecord.octets, before, behind]
      · intro same
        apply alteration.differ
        exact congrArg (fun word : UInt32 => Bytes.littleEndian 4 word.toNat) same

/-- Wherever a record stands, an alteration inside one of these parts leaves such a record there. -/
theorem exists_stored_within (part : RecordPart) {feature : Feature} {head tail altered : Bytes}
    (alteration : AlteredAt place width (head ++ (encode feature ++ tail)) altered)
    (narrow : width ≤ 4) (starts : head.length + (part.before feature).length ≤ place)
    (ends : place + width ≤
      head.length + (part.before feature).length + (part.octets feature).length) :
    ∃ record : StoredRecord, altered = head ++ (record.octets ++ tail) ∧
      record.feature.payload.length = feature.payload.length ∧
      record.stored ≠ Crc32.checksum (content record.feature) := by
  have parts : head ++ (encode feature ++ tail) =
      (head ++ part.before feature) ++ (part.octets feature ++ (part.behind feature ++ tail)) := by
    simp only [part.encode_eq feature, List.append_assoc]
  rw [← List.length_append] at starts ends
  rw [parts] at alteration
  obtain ⟨changed, rfl, change⟩ := alteration.middle starts ends
  obtain ⟨record, shape, length, wrong⟩ := part.exists_stored change narrow (by omega)
  refine ⟨record, ?_, length, wrong⟩
  simp only [← shape, List.append_assoc]

end RecordPart

/-! ### Readers -/

namespace ChunkReader

open ChunkBody ChunkRecord

variable {disk : Disk} {reader : ChunkReader}

/-- A reader's body keeps the way in which it ends. -/
theorem lack_next {after : ChunkReader} {result : Except SortError (Option Feature)}
    (taken : reader.next disk = (result, after)) : after.body.lack = reader.body.lack := by
  obtain ⟨body, lack, outcome⟩ := record_cases disk reader.body
  rw [next] at taken
  split at taken
  · cases taken
    rfl
  · obtain ⟨stored, found, -⟩ | found := outcome
    all_goals
      rw [found] at taken
      dsimp only at taken
    · split at taken
      all_goals
        cases taken
        exact lack
    · cases taken
      exact lack

/-- Calls of a reader hand out features, and leave it as another one. -/
inductive HandsOut (disk : Disk) : ChunkReader → List Feature → ChunkReader → Prop where
  | nil (reader : ChunkReader) : HandsOut disk reader [] reader
  | cons {reader behind after : ChunkReader} {feature : Feature} {rest : List Feature}
      (found : reader.next disk = (.ok (some feature), behind))
      (others : HandsOut disk behind rest after) : HandsOut disk reader (feature :: rest) after

theorem HandsOut.reads {after : ChunkReader} {features : List Feature}
    (out : HandsOut disk reader features after) (count : Nat) :
    reads disk (features.length + count) reader =
      features.map (.ok ∘ some) ++ reads disk count after := by
  induction out with
  | nil => rw [List.length_nil, Nat.zero_add]; rfl
  | cons found others ih =>
      rw [List.length_cons, Nat.succ_add, ChunkReader.reads, found]
      exact congrArg _ ih

theorem HandsOut.readAll {after : ChunkReader} {features : List Feature}
    (out : HandsOut disk reader features after) :
    readAll disk reader = (features ++ (after.readAll disk).1, (after.readAll disk).2) := by
  induction out with
  | nil => rfl
  | cons found others ih => rw [readAll_of_some found, ih]; rfl

/-- The records of features are handed out, if as many are left. -/
theorem exists_handsOut (reader : ChunkReader) {features : List Feature} {rest : Bytes}
    (ends : reader.body.lack = .ended) (left : features.length ≤ reader.remaining)
    (fits : ∀ feature ∈ features, feature.payload.length ≤ maxPayload)
    (unread : reader.body.unread disk = features.flatMap encode ++ rest) :
    ∃ body, HandsOut disk reader features
        { reader with remaining := reader.remaining - features.length, body } ∧
      body.lack = .ended ∧ body.unread disk = rest := by
  induction features generalizing reader with
  | nil => exact ⟨reader.body, .nil reader, ends, unread⟩
  | cons feature features ih =>
      rw [List.flatMap_cons, List.append_assoc] at unread
      have some_left : reader.remaining ≠ 0 :=
        Nat.ne_of_gt (Nat.lt_of_lt_of_le (Nat.succ_pos _) left)
      obtain ⟨behind, found, shape⟩ :=
        next_of_unread some_left (fits feature List.mem_cons_self) unread
      obtain ⟨body, others, ends, shape⟩ := ih
        { reader with remaining := reader.remaining - 1, body := behind }
        ((lack_next found).trans ends) (Nat.le_sub_one_of_lt left)
        (fun other member => fits other (List.mem_cons_of_mem _ member)) shape
      refine ⟨body, .cons found ?_, ends, shape⟩
      rw [List.length_cons, Nat.add_comm, Nat.sub_add_eq]
      exact others

/-- A record with a wrong check value is reported and passed over. -/
theorem next_of_wrong (reader : ChunkReader) {stored : StoredRecord} {rest : Bytes}
    (left : reader.remaining ≠ 0)
    (fits : stored.feature.payload.length ≤ maxPayload)
    (wrong : stored.stored ≠ Crc32.checksum (content stored.feature))
    (unread : reader.body.unread disk = stored.octets ++ rest) :
    ∃ body, reader.next disk = (.error (.corruption (.checksum reader.path stored.stored
        (Crc32.checksum (content stored.feature)))), { reader with body }) ∧
      body.unread disk = rest := by
  obtain ⟨body, found, shape⟩ := record_of_unread fits unread
  refine ⟨body, ?_, shape⟩
  rw [next, if_neg left, found]
  exact if_neg wrong

/-- A reader that expects records behind the end of its file reports that on every call. -/
theorem reads_exhausted (reader : ChunkReader) (ends : reader.body.lack = .ended)
    (left : reader.remaining ≠ 0)
    (unread : reader.body.unread disk = []) (count : Nat) :
    reads disk count reader = List.replicate count (.error (.corruption (.cutRecords reader.path
      reader.remaining reader.header.count.toNat))) := by
  induction count generalizing reader with
  | zero => rfl
  | succ count ih =>
      obtain ⟨body, lack, ⟨octets, -, width, shape⟩ | ⟨lacks, unread⟩⟩ :=
        take_cases 8 disk reader.body
      · have empty := (List.append_eq_nil_iff.1 (shape.symm.trans unread)).1
        rw [empty] at width
        cases width
      have failed : reader.next disk = (.error (.corruption (.cutRecords reader.path
          reader.remaining reader.header.count.toNat)), { reader with body }) := by
        rw [next, if_neg left, record, lacks, ends]
        rfl
      rw [reads, failed, List.replicate_succ]
      exact congrArg _ (ih { reader with body } (lack.trans ends) left unread)

/-- What the calls of a reader give when one of the records on its body has a wrong check value. -/
theorem reads_of_wrong (reader : ChunkReader) {front behind : List Feature} {stored : StoredRecord}
    (ends : reader.body.lack = .ended)
    (remaining : reader.remaining = front.length + 1 + behind.length)
    (front_fits : ∀ feature ∈ front, feature.payload.length ≤ maxPayload)
    (behind_fits : ∀ feature ∈ behind, feature.payload.length ≤ maxPayload)
    (fits : stored.feature.payload.length ≤ maxPayload)
    (wrong : stored.stored ≠ Crc32.checksum (content stored.feature))
    (unread : reader.body.unread disk =
      front.flatMap encode ++ (stored.octets ++ behind.flatMap encode)) :
    reader.contents disk = ⟨front, some (.corruption (.checksum reader.path stored.stored
        (Crc32.checksum (content stored.feature))))⟩ ∧
      ∀ count, reads disk (front.length + (1 + (behind.length + count))) reader =
        front.map (.ok ∘ some) ++
          .error (.corruption (.checksum reader.path stored.stored
              (Crc32.checksum (content stored.feature)))) ::
            (behind.map (.ok ∘ some) ++ List.replicate count (.error (.corruption (.cutRecords
              reader.path 1 reader.header.count.toNat)))) := by
  obtain ⟨at_record, handed, ends, unread⟩ :=
    exists_handsOut reader ends (by omega) front_fits unread
  have left : reader.remaining - front.length = behind.length + 1 := by omega
  rw [left] at handed
  obtain ⟨behind_record, failed, unread⟩ := next_of_wrong
    { reader with remaining := behind.length + 1, body := at_record } (Nat.succ_ne_zero _) fits
    wrong unread
  rw [← List.append_nil (behind.flatMap encode)] at unread
  obtain ⟨ending, others, ends, unread⟩ := exists_handsOut
    { reader with remaining := behind.length + 1, body := behind_record }
    ((lack_next failed).trans ends) (Nat.le_succ _) behind_fits unread
  rw [Nat.add_sub_cancel_left] at others
  constructor
  · rw [contents, handed.readAll, readAll_of_error failed, List.append_nil]
    rfl
  · intro count
    rw [handed.reads, Nat.add_comm 1, reads, failed]
    dsimp only
    rw [others.reads, reads_exhausted _ ends Nat.one_ne_zero unread]

end ChunkReader

/-! ### Files -/

namespace Chunk

open ChunkRecord Bytes

variable {directory : String} {number : Nat} {config : SpillConfig} {disk after other : Disk}
  {chunk : Chunk}

/-- The file of a chunk that has been written without compression. -/
theorem read_of_write [Codec] {features : List Feature} (plain : config.compress = false)
    (written : write directory number features config disk = (.ok chunk, after)) :
    (∀ feature ∈ features, feature.payload.length ≤ maxPayload) ∧
      after.read (Path.ofText chunk.path) = .ok
        ((ChunkHeader.ofCounts (UInt64.ofNat number) (UInt64.ofNat features.length) false).encode ++
          features.flatMap ChunkRecord.encode) := by
  obtain ⟨octets, encoded, rfl, stored⟩ := stored_of_write written
  cases records : encodeAll features with
  | error error => simp [encode, records, Except.map] at encoded
  | ok _ =>
      have fits := fits_of_encodeAll records
      refine ⟨fits, ?_⟩
      rw [encode_of_fits number config fits, plain] at encoded
      rw [stored.read, ← Except.ok.inj encoded]
      rfl

/-- What reading a plain file gives when one of the records that its header counts has a wrong check
value. -/
theorem contents_of_wrong [Codec] {number count : UInt64} {front behind : List Feature}
    {stored : StoredRecord} (counted : count.toNat = front.length + 1 + behind.length)
    (read : disk.read (Path.ofText chunk.path) = .ok
      ((ChunkHeader.ofCounts number count false).encode ++ (front.flatMap ChunkRecord.encode ++
        (stored.octets ++ behind.flatMap ChunkRecord.encode))))
    (front_fits : ∀ feature ∈ front, feature.payload.length ≤ maxPayload)
    (behind_fits : ∀ feature ∈ behind, feature.payload.length ≤ maxPayload)
    (fits : stored.feature.payload.length ≤ maxPayload)
    (wrong : stored.stored ≠ Crc32.checksum (content stored.feature)) :
    ∃ reader, ChunkReader.openPath chunk.path disk = .ok reader ∧
      chunk.contents disk = ⟨front, some (.corruption (.checksum chunk.path stored.stored
        (Crc32.checksum (content stored.feature))))⟩ ∧
      ∀ more, reader.reads disk (front.length + (1 + (behind.length + more))) =
        front.map (.ok ∘ some) ++
          .error (.corruption (.checksum chunk.path stored.stored
              (Crc32.checksum (content stored.feature)))) ::
            (behind.map (.ok ∘ some) ++ List.replicate more (.error (.corruption (.cutRecords
              chunk.path 1 count.toNat)))) := by
  obtain ⟨file, stands, holds⟩ := exists_fileAt_of_read read
  obtain ⟨body, opened, unread⟩ := openPath_of_plain stands holds
  obtain ⟨contents_eq, reads_eq⟩ := ChunkReader.reads_of_wrong
    ⟨chunk.path, .ofCounts number count false, count.toNat, .plain body⟩ rfl counted
    front_fits behind_fits fits wrong unread
  refine ⟨_, opened, ?_, reads_eq⟩
  rw [contents, opened]
  exact contents_eq

/-- Where the record behind those of some features starts in the file of a chunk. -/
def recordStart (front : List Feature) : Nat :=
  ChunkHeader.size + (front.flatMap ChunkRecord.encode).length

/-- A plain chunk file has been altered in up to four octets in a row, inside the key, the payload
or the check value of one of its records.  Then reading it gives the features in front of this
record and fails with a wrong check value there.  Further calls give the features behind it, and
from then on report that one record is missing; the altered record is never handed out. -/
theorem altered_record_is_reported [Codec] {front behind : List Feature} {feature : Feature}
    {octets damaged : Bytes} {place width : Nat} (part : RecordPart)
    (plain : config.compress = false) (few : (front ++ feature :: behind).length < 2 ^ 64)
    (written : write directory number (front ++ feature :: behind) config disk = (.ok chunk, after))
    (found : after.read (Path.ofText chunk.path) = .ok octets) (narrow : width ≤ 4)
    (starts : recordStart front + (part.before feature).length ≤ place)
    (ends : place + width ≤
      recordStart front + (part.before feature).length + (part.octets feature).length)
    (alteration : AlteredAt place width octets damaged)
    (altered : other.read (Path.ofText chunk.path) = .ok damaged) :
    ∃ (reader : ChunkReader) (record : StoredRecord),
      ChunkReader.openPath chunk.path other = .ok reader ∧
      damaged =
        octets.take (recordStart front) ++ (record.octets ++ behind.flatMap ChunkRecord.encode) ∧
      record.stored ≠ Crc32.checksum (content record.feature) ∧
      chunk.contents other = ⟨front, some (.corruption (.checksum chunk.path record.stored
        (Crc32.checksum (content record.feature))))⟩ ∧
      ∀ count, reader.reads other (front.length + (1 + (behind.length + count))) =
        front.map (.ok ∘ some) ++
          .error (.corruption (.checksum chunk.path record.stored
              (Crc32.checksum (content record.feature)))) ::
            (behind.map (.ok ∘ some) ++ List.replicate count (.error (.corruption (.cutRecords
              chunk.path 1 (front ++ feature :: behind).length)))) := by
  obtain ⟨fits, stands⟩ := read_of_write plain written
  have front_fits : ∀ other ∈ front, other.payload.length ≤ maxPayload := fun other member =>
    fits other (List.mem_append_left _ member)
  have behind_fits : ∀ other ∈ behind, other.payload.length ≤ maxPayload := fun other member =>
    fits other (List.mem_append_right _ (List.mem_cons_of_mem _ member))
  obtain rfl := Except.ok.inj (found.symm.trans stands)
  have count := UInt64.toNat_ofNat_of_lt' few
  have counted : (front ++ feature :: behind).length = front.length + 1 + behind.length := by
    rw [List.length_append, List.length_cons]
    omega
  generalize header_eq : ChunkHeader.ofCounts (UInt64.ofNat number)
    (UInt64.ofNat (front ++ feature :: behind).length) false = header at *
  have head_length : (header.encode ++ front.flatMap ChunkRecord.encode).length =
      recordStart front := by
    rw [List.length_append, ChunkHeader.length_encode, recordStart]
  have shape : header.encode ++ (front ++ feature :: behind).flatMap ChunkRecord.encode =
      (header.encode ++ front.flatMap ChunkRecord.encode) ++
        (ChunkRecord.encode feature ++ behind.flatMap ChunkRecord.encode) := by
    rw [List.flatMap_append, List.flatMap_cons, List.append_assoc]
  rw [shape] at alteration ⊢
  rw [← head_length] at starts ends ⊢
  obtain ⟨record, rfl, length, wrong⟩ := part.exists_stored_within alteration narrow starts ends
  rw [List.append_assoc, ← header_eq] at altered
  obtain ⟨reader, opened, contents_eq, reads_eq⟩ := contents_of_wrong (count.trans counted) altered
    front_fits behind_fits (Nat.le_trans (Nat.le_of_eq length) (fits feature (by simp))) wrong
  rw [count] at reads_eq
  exact ⟨reader, record, opened, by rw [List.take_left], wrong, contents_eq, reads_eq⟩

/-- The header and the first record of a file of three features, and the second record up to the
second octet of its payload. -/
def soundFront : Bytes :=
  (ChunkHeader.ofCounts 0 3 false).encode ++ ChunkRecord.encode ⟨3, [1]⟩ ++
    (RecordPart.payload.before ⟨4, [2, 3, 4]⟩ ++ [2])

/-- What stands in that file behind the second payload. -/
def soundBehind : Bytes :=
  RecordPart.check.octets ⟨4, [2, 3, 4]⟩ ++ ChunkRecord.encode ⟨5, []⟩

/-- A disk on which two octets of that payload have been altered. -/
def alteredDisk : Disk where
  entries := [(["chunk-000000.chunk"], .file 0)]
  files := [soundFront ++ ([9, 9] ++ soundBehind)]

theorem read_alteredDisk : alteredDisk.read (Path.ofText (chunkPath "/" 0)) =
    .ok (soundFront ++ ([9, 9] ++ soundBehind)) := by
  rw [show chunkPath "/" 0 = "/chunk-000000.chunk" by decide +kernel]
  rfl

section

attribute [local instance] Frame.codec

theorem altered_record_is_reported_payload :
    ∃ chunk after, write "/" 0 ([⟨3, [1]⟩] ++ ⟨4, [2, 3, 4]⟩ :: [⟨5, []⟩]) .standard ⟨[], []⟩ =
        (.ok chunk, after) ∧
      after.read (Path.ofText chunk.path) = .ok (soundFront ++ ([3, 4] ++ soundBehind)) ∧
      alteredDisk.read (Path.ofText chunk.path) = .ok (soundFront ++ ([9, 9] ++ soundBehind)) ∧
      ∃ stored computed, stored ≠ computed ∧ chunk.contents alteredDisk =
        ⟨[⟨3, [1]⟩], some (.corruption (.checksum chunk.path stored computed))⟩ := by
  have works : (write "/" 0 ([⟨3, [1]⟩] ++ ⟨4, [2, 3, 4]⟩ :: [⟨5, []⟩]) .standard
      ⟨[], []⟩).1.isOk := by decide +kernel
  cases outcome : write "/" 0 ([⟨3, [1]⟩] ++ ⟨4, [2, 3, 4]⟩ :: [⟨5, []⟩]) .standard ⟨[], []⟩ with
  | mk result after =>
      cases result with
      | error error =>
          rw [outcome] at works
          exact absurd works Bool.false_ne_true
      | ok chunk =>
          have found := (read_of_write rfl outcome).2
          rw [show _ ++ _ = soundFront ++ ([3, 4] ++ soundBehind) by decide +kernel] at found
          have read : alteredDisk.read (Path.ofText chunk.path) =
              .ok (soundFront ++ ([9, 9] ++ soundBehind)) := by
            obtain ⟨-, -, rfl, -⟩ := stored_of_write outcome
            exact read_alteredDisk
          have alteration : AlteredAt soundFront.length 2 (soundFront ++ ([3, 4] ++ soundBehind))
              (soundFront ++ ([9, 9] ++ soundBehind)) :=
            @AlteredAt.of_parts soundFront [3, 4] [9, 9] soundBehind rfl (by decide)
          obtain ⟨-, record, -, -, wrong, contents, -⟩ :=
            altered_record_is_reported .payload rfl (by decide) outcome found (by decide)
              (by decide) (by decide) alteration read
          exact ⟨chunk, after, rfl, found, read, _, _, wrong, contents⟩

end

end Chunk
end TileBindery
