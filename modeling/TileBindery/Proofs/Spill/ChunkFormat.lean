import TileBindery.Proofs.Spill.ChunkWriting
import TileBindery.Proofs.Spill.FrameRoundTrip
import TileBindery.Proofs.Spill.Opening

/-!
# The format of chunk files

A chunk file is a header of thirty-two octets and one record a feature, and exactly this is read.
Whatever octets a file holds, a reader hands out the longest run of records at the front of the body
that the header announces; it finds the end behind the last of them if these are as many as announced,
and else damage.  The main statement puts both directions together: what writing produces, and what
reading accepts.
-/

namespace TileBindery

namespace ChunkRecord

/-- The records of features stand at the front of octets. -/
def Leads (octets : Bytes) (features : List Feature) : Prop :=
  ∃ records, encodeAll features = .ok records ∧ records <+: octets

/-- The longest run of records at the front of octets, of at most `count` records. -/
structure Longest (count : Nat) (octets : Bytes) (features : List Feature) : Prop where
  /-- There are no more records than announced. -/
  few : features.length ≤ count
  /-- All of them stand at the front. -/
  leads : Leads octets features
  /-- Every other run is a part of it. -/
  longest : ∀ others, Leads octets others → others.length ≤ count → others <+: features

@[simp]
theorem leads_nil (octets : Bytes) : Leads octets [] := ⟨[], rfl, List.nil_prefix⟩

theorem leads_cons {octets : Bytes} {feature : Feature} {rest : List Feature} :
    Leads octets (feature :: rest) ↔
      feature.payload.length ≤ maxPayload ∧
        ∃ behind, octets = encode feature ++ behind ∧ Leads behind rest := by
  constructor
  · rintro ⟨records, encoded, others, rfl⟩
    obtain ⟨fits, behind, encoded_behind, rfl⟩ := encodeAll_cons.1 encoded
    exact ⟨fits, behind ++ others, List.append_assoc _ _ _, behind, encoded_behind,
      List.prefix_append _ _⟩
  · rintro ⟨fits, behind, rfl, records, encoded, others, rfl⟩
    refine ⟨encode feature ++ records, encodeAll_cons.2 ⟨fits, records, encoded, rfl⟩, others, ?_⟩
    exact List.append_assoc _ _ _

/-- A field of a known width tells its number. -/
theorem littleEndian_inj {width a b : Nat} (a_lt : a < 256 ^ width) (b_lt : b < 256 ^ width)
    (same : Bytes.littleEndian width a = Bytes.littleEndian width b) : a = b := by
  have numbers := congrArg Bytes.fromLittleEndian same
  rwa [Bytes.fromLittleEndian_littleEndian, Bytes.fromLittleEndian_littleEndian,
    Nat.mod_eq_of_lt a_lt, Nat.mod_eq_of_lt b_lt] at numbers

/-- The record at the front of octets is told by them. -/
theorem encode_append_inj {a b : Feature} {behind others : Bytes}
    (a_fits : a.payload.length ≤ maxPayload) (b_fits : b.payload.length ≤ maxPayload)
    (same : encode a ++ behind = encode b ++ others) : a = b ∧ behind = others := by
  obtain ⟨key, payload⟩ := a
  obtain ⟨other_key, other_payload⟩ := b
  simp only [maxPayload] at a_fits b_fits
  simp only [encode, content, List.append_assoc] at same
  obtain ⟨keys, same⟩ := List.append_inj same (by simp)
  obtain ⟨lengths, same⟩ := List.append_inj same (by simp)
  have key_eq := littleEndian_inj (show _ < 256 ^ 8 from key.toNat_lt)
    (show _ < 256 ^ 8 from other_key.toNat_lt) keys
  have length_eq := littleEndian_inj (by omega) (by omega) lengths
  obtain ⟨payloads, same⟩ := List.append_inj same length_eq
  obtain ⟨-, rest⟩ := List.append_inj same (by simp)
  exact ⟨by rw [UInt64.toNat_inj.1 key_eq, payloads], rest⟩

theorem longest_zero (octets : Bytes) : Longest 0 octets [] where
  few := Nat.le_refl 0
  leads := leads_nil octets
  longest others _ few := by
    obtain rfl := List.length_eq_zero_iff.1 (Nat.le_zero.1 few)
    exact List.nil_prefix

/-- Where no record stands, the run is empty. -/
theorem longest_nil {count : Nat} {octets : Bytes}
    (none : ∀ feature behind, feature.payload.length ≤ maxPayload →
      octets ≠ encode feature ++ behind) : Longest count octets [] where
  few := Nat.zero_le count
  leads := leads_nil octets
  longest
    | [], _, _ => List.nil_prefix
    | feature :: _, leads, _ => by
        obtain ⟨fits, behind, shape, -⟩ := leads_cons.1 leads
        exact absurd shape (none feature behind fits)

/-- A record in front makes the run longer by one. -/
theorem Longest.cons {count : Nat} {behind : Bytes} {feature : Feature} {rest : List Feature}
    (fits : feature.payload.length ≤ maxPayload) (run : Longest count behind rest) :
    Longest (count + 1) (encode feature ++ behind) (feature :: rest) where
  few := Nat.succ_le_succ run.few
  leads := leads_cons.2 ⟨fits, behind, rfl, run.leads⟩
  longest
    | [], _, _ => List.nil_prefix
    | other :: others, leads, few => by
        obtain ⟨other_fits, other_behind, shape, other_leads⟩ := leads_cons.1 leads
        obtain ⟨rfl, rfl⟩ := encode_append_inj fits other_fits shape
        exact List.cons_prefix_cons.2
          ⟨rfl, run.longest others other_leads (Nat.le_of_succ_le_succ few)⟩

end ChunkRecord

/-! ### Bodies -/

namespace ChunkBody

/-- Why a body hands out nothing behind its last octet. -/
def lack : ChunkBody → Lack
  | .plain _ => .ended
  | .unpacked source => source.breakage.elim .ended .broken

/-- A body hands out the octets in front, or nothing any more. -/
theorem take_cases (count : Nat) (disk : Disk) (body : ChunkBody) :
    ∃ after : ChunkBody, after.lack = body.lack ∧
      ((∃ octets, body.take count disk = (.ok octets, after) ∧ octets.length = count ∧
          body.unread disk = octets ++ after.unread disk) ∨
        body.take count disk = (.error body.lack, after) ∧ after.unread disk = []) := by
  cases body with
  | plain file =>
      rw [take]
      cases taken : file.take count disk with
      | mk result after =>
          cases result with
          | none => exact ⟨.plain after, rfl, .inr ⟨rfl, FileReader.unread_of_take_none taken⟩⟩
          | some octets =>
              obtain ⟨shape, width⟩ := FileReader.unread_take taken
              exact ⟨.plain after, rfl, .inl ⟨octets, rfl, width, shape⟩⟩
  | unpacked source =>
      obtain ⟨octets, breakage⟩ := source
      rw [take]
      simp only [ByteSource.take]
      cases taken : Bytes.take? count octets with
      | none =>
          refine ⟨.unpacked ⟨[], breakage⟩, rfl, .inr ⟨?_, rfl⟩⟩
          cases breakage <;> rfl
      | some split =>
          obtain ⟨front, rest⟩ := split
          obtain ⟨shape, width⟩ := Bytes.length_of_take? taken
          exact ⟨.unpacked ⟨rest, breakage⟩, rfl, .inl ⟨front, rfl, width, shape⟩⟩

end ChunkBody

namespace ChunkReader

open ChunkBody ChunkRecord

/-- Of a body the record in front is read, or nothing. -/
theorem record_cases (disk : Disk) (body : ChunkBody) :
    ∃ after : ChunkBody, after.lack = body.lack ∧
      ((∃ stored, record disk body = (.ok stored, after) ∧
          stored.feature.payload.length ≤ maxPayload ∧
          body.unread disk = stored.octets ++ after.unread disk) ∨
        record disk body = (.error body.lack, after)) := by
  rw [record]
  obtain ⟨behind_key, lack, ⟨key, taken, key_width, key_shape⟩ | ⟨taken, -⟩⟩ :=
    take_cases 8 disk body
  case inr => exact ⟨behind_key, lack, .inr (by rw [taken])⟩
  rw [taken, ← lack]
  dsimp only
  obtain ⟨behind_length, lack, ⟨length, taken, length_width, length_shape⟩ | ⟨taken, -⟩⟩ :=
    take_cases 4 disk behind_key
  case inr => exact ⟨behind_length, lack, .inr (by rw [taken])⟩
  rw [taken, ← lack]
  dsimp only
  rw [recordTail]
  obtain ⟨behind_payload, lack, ⟨payload, taken, payload_width, payload_shape⟩ | ⟨taken, -⟩⟩ :=
    take_cases (Bytes.fromLittleEndian length) disk behind_length
  case inr => exact ⟨behind_payload, lack, .inr (by rw [taken])⟩
  rw [taken, ← lack]
  dsimp only
  obtain ⟨after, lack, ⟨check, taken, check_width, check_shape⟩ | ⟨taken, -⟩⟩ :=
    take_cases 4 disk behind_payload
  case inr => exact ⟨after, lack, .inr (by rw [taken])⟩
  rw [taken]
  have key_lt := Bytes.fromLittleEndian_lt key
  have length_lt := Bytes.fromLittleEndian_lt length
  have check_lt := Bytes.fromLittleEndian_lt check
  rw [key_width] at key_lt
  rw [length_width] at length_lt
  rw [check_width] at check_lt
  refine ⟨after, lack, .inl ⟨_, rfl, ?_, ?_⟩⟩
  · rw [payload_width, maxPayload]
    omega
  · rw [key_shape, length_shape, payload_shape, check_shape, StoredRecord.octets, content,
      UInt64.toNat_ofNat_of_lt' key_lt, UInt32.toNat_ofNat_of_lt' check_lt, payload_width]
    have key_octets := Bytes.littleEndian_fromLittleEndian key
    have length_octets := Bytes.littleEndian_fromLittleEndian length
    have check_octets := Bytes.littleEndian_fromLittleEndian check
    rw [key_width] at key_octets
    rw [length_width] at length_octets
    rw [check_width] at check_octets
    simp only [key_octets, length_octets, check_octets, List.append_assoc]

/-- What a reader reports is damage unless its body breaks. -/
theorem fault_of_ended (reader : ChunkReader) {lack : Lack} (ended : lack = .ended) :
    ∃ damage, reader.fault lack = .corruption damage := by
  rw [ended]
  exact ⟨_, rfl⟩

/-- What a reader with records left does: it hands out the feature whose record stands in front, or
reports an error if there is none, and damage unless the body breaks. -/
theorem next_cases {disk : Disk} {reader : ChunkReader} (left : reader.remaining ≠ 0) :
    (∃ (feature : Feature) (after : ChunkBody), reader.next disk = (.ok (some feature),
          { reader with remaining := reader.remaining - 1, body := after }) ∧
        after.lack = reader.body.lack ∧ feature.payload.length ≤ maxPayload ∧
        reader.body.unread disk = encode feature ++ after.unread disk) ∨
      (∃ error after, reader.next disk = (.error error, after) ∧
        (reader.body.lack = .ended → ∃ damage, error = .corruption damage)) ∧
        ∀ feature behind, feature.payload.length ≤ maxPayload →
          reader.body.unread disk ≠ encode feature ++ behind := by
  have refused {error : SortError} {after : ChunkReader}
      (failed : reader.next disk = (.error error, after)) (feature : Feature)
      (behind : Bytes) (fits : feature.payload.length ≤ maxPayload) :
      reader.body.unread disk ≠ encode feature ++ behind := by
    intro shape
    obtain ⟨other, found, -⟩ := next_of_unread left fits shape
    cases failed.symm.trans found
  obtain ⟨after, lack, ⟨⟨feature, check⟩, found, fits, shape⟩ | found⟩ :=
    record_cases disk reader.body
  · by_cases same : check = Crc32.checksum (content feature)
    · left
      subst same
      refine ⟨feature, after, ?_, lack, fits, shape⟩
      rw [next, if_neg ‹_›, found]
      exact if_pos rfl
    · right
      have failed : reader.next disk = (.error (.corruption (.checksum reader.path check
          (Crc32.checksum (content feature)))), { reader with body := after }) := by
        rw [next, if_neg left, found]
        exact if_neg same
      exact ⟨⟨_, _, failed, fun _ => ⟨_, rfl⟩⟩, refused failed⟩
  · right
    have failed : reader.next disk =
        (.error (reader.fault reader.body.lack), { reader with body := after }) := by
      rw [next, if_neg left, found]
    exact ⟨⟨_, _, failed, reader.fault_of_ended⟩, refused failed⟩

/-- A reader finds the longest run of records on its body, and behind it the end or an error, which is
damage unless the body breaks. -/
theorem contents_longest (disk : Disk) (reader : ChunkReader) :
    Longest reader.remaining (reader.body.unread disk) (reader.contents disk).features ∧
      ((reader.contents disk).features.length = reader.remaining ∧
          (reader.contents disk).fault = none ∨
        (reader.contents disk).features.length < reader.remaining ∧
          ∃ error, (reader.contents disk).fault = some error ∧
            (reader.body.lack = .ended → ∃ damage, error = .corruption damage)) := by
  induction count : reader.remaining generalizing reader with
  | zero =>
      have ended : reader.next disk = (.ok none, reader) := if_pos count
      rw [contents, readAll_of_none ended]
      exact ⟨longest_zero _, .inl ⟨rfl, rfl⟩⟩
  | succ rest ih =>
      have left : reader.remaining ≠ 0 := by rw [count]; exact Nat.succ_ne_zero rest
      obtain ⟨feature, after, taken, lack, fits, shape⟩ | ⟨⟨error, after, taken, ended⟩, none⟩ :=
        next_cases left
      · obtain ⟨run, ending⟩ := ih { reader with remaining := reader.remaining - 1, body := after }
          (by simp [count])
        rw [contents, readAll_of_some taken, shape]
        refine ⟨run.cons fits, ?_⟩
        simpa [RunContents.ofResult, contents, lack] using ending
      · rw [contents, readAll_of_error taken]
        exact ⟨longest_nil none, .inr ⟨Nat.succ_pos rest, error, rfl, ended⟩⟩

end ChunkReader

/-! ### Files -/

namespace Chunk

open ChunkRecord

/-- The number of records that the octets of a chunk file announce.  Without a header of a known
version they announce none. -/
def announced (octets : Bytes) : Nat :=
  let header := ChunkHeader.decode (octets.take ChunkHeader.size)
  if ChunkHeader.size ≤ octets.length ∧ header.isValid then header.count.toNat else 0

/-- The octets of a plain chunk file spell features. -/
structure Spells (octets : Bytes) (features : List Feature) : Prop where
  /-- There is a header. -/
  header : ChunkHeader.size ≤ octets.length
  /-- Its mark and version are known. -/
  known : (ChunkHeader.decode (octets.take ChunkHeader.size)).isValid
  /-- It counts the features. -/
  count : (ChunkHeader.decode (octets.take ChunkHeader.size)).count.toNat = features.length
  /-- Their records stand at the front of the body. -/
  records : Leads (octets.drop ChunkHeader.size) features

theorem Spells.announced {octets : Bytes} {features : List Feature}
    (spells : Spells octets features) : announced octets = features.length := by
  rw [Chunk.announced, if_pos ⟨spells.header, spells.known⟩, spells.count]

/-- The longest run is the only one of as many records as announced. -/
theorem Spells.eq_of_longest {octets : Bytes} {features run : List Feature}
    (spells : Spells octets features)
    (longest : Longest (Chunk.announced octets) (octets.drop ChunkHeader.size) run) :
    features = run := by
  have front := longest.longest features spells.records (Nat.le_of_eq spells.announced.symm)
  refine front.eq_of_length (Nat.le_antisymm front.length_le ?_)
  exact Nat.le_trans longest.few (Nat.le_of_eq spells.announced)

theorem exists_fileAt_of_read {disk : Disk} {path : Path} {octets : Bytes}
    (found : disk.read path = .ok octets) :
    ∃ file, disk.fileAt path = .ok file ∧ disk.contents file = octets := by
  obtain ⟨reaches, file, stands, holds⟩ := Disk.read_iff.1 found
  exact ⟨file, Disk.fileAt_iff.2 ⟨reaches, stands⟩, holds⟩

section

variable [Codec]

/-- A chunk file with a header of a known version is opened there and then read as its body. -/
theorem contents_of_header {disk : Disk} {chunk : Chunk} {octets : Bytes}
    (found : disk.read (Path.ofText chunk.path) = .ok octets)
    (long : ChunkHeader.size ≤ octets.length)
    (known : (ChunkHeader.decode (octets.take ChunkHeader.size)).isValid) :
    ∃ (reader : ChunkReader) (file : FileReader),
      chunk.contents disk = reader.contents disk ∧
      reader.body = .ofFile (ChunkHeader.decode (octets.take ChunkHeader.size)) file disk ∧
      reader.remaining = (ChunkHeader.decode (octets.take ChunkHeader.size)).count.toNat ∧
      file.unread disk = octets.drop ChunkHeader.size := by
  obtain ⟨file, stands, holds⟩ := exists_fileAt_of_read found
  have split := (List.take_append_drop ChunkHeader.size octets).symm
  have unread : (FileReader.ofNumber file).unread disk = _ := holds.trans split
  obtain ⟨behind, taken, left⟩ := FileReader.take_of_unread unread
  rw [List.length_take_of_le long] at taken
  refine ⟨⟨chunk.path, .decode (octets.take ChunkHeader.size),
    (ChunkHeader.decode (octets.take ChunkHeader.size)).count.toNat,
    .ofFile (.decode (octets.take ChunkHeader.size)) behind disk⟩, behind, ?_, rfl, rfl, left⟩
  rw [contents, ChunkReader.openPath, stands]
  simp only [ChunkReader.ofFile, taken, known, if_true]

/-- Behind a clear flag the longest run of records is found that the header counts, and the end behind
it, or damage. -/
theorem longest_of_plain {disk : Disk} {chunk : Chunk} {octets : Bytes}
    (found : disk.read (Path.ofText chunk.path) = .ok octets)
    (long : ChunkHeader.size ≤ octets.length)
    (known : (ChunkHeader.decode (octets.take ChunkHeader.size)).isValid)
    (plain : (ChunkHeader.decode (octets.take ChunkHeader.size)).isCompressed = false) :
    let count := (ChunkHeader.decode (octets.take ChunkHeader.size)).count.toNat
    Longest count (octets.drop ChunkHeader.size) (chunk.contents disk).features ∧
      ((chunk.contents disk).features.length = count ∧ (chunk.contents disk).fault = none ∨
        (chunk.contents disk).features.length < count ∧
          ∃ damage, (chunk.contents disk).fault = some (.corruption damage)) := by
  obtain ⟨reader, file, same, body, remaining, unread⟩ := contents_of_header found long known
  rw [ChunkBody.ofFile, plain, if_neg Bool.false_ne_true] at body
  obtain ⟨run, ending⟩ := ChunkReader.contents_longest disk reader
  rw [body] at run ending
  change Longest _ (file.unread disk) _ at run
  rw [same, ← remaining, ← unread]
  refine ⟨run, ending.imp_right ?_⟩
  rintro ⟨fewer, error, fault, ended⟩
  obtain ⟨damage, rfl⟩ := ended rfl
  exact ⟨fewer, damage, fault⟩

/-- Behind a flag that is set the records are those of what the body unpacks to. -/
theorem longest_of_packed {disk : Disk} {chunk : Chunk} {octets : Bytes}
    (found : disk.read (Path.ofText chunk.path) = .ok octets)
    (long : ChunkHeader.size ≤ octets.length)
    (known : (ChunkHeader.decode (octets.take ChunkHeader.size)).isValid)
    (packed : (ChunkHeader.decode (octets.take ChunkHeader.size)).isCompressed = true) :
    let count := (ChunkHeader.decode (octets.take ChunkHeader.size)).count.toNat
    Longest count (Codec.unpack (octets.drop ChunkHeader.size)).octets
        (chunk.contents disk).features ∧
      ((chunk.contents disk).fault = none ↔ (chunk.contents disk).features.length = count) := by
  obtain ⟨reader, file, same, body, remaining, unread⟩ := contents_of_header found long known
  rw [ChunkBody.ofFile, packed, if_pos rfl, unread] at body
  obtain ⟨run, ending⟩ := ChunkReader.contents_longest disk reader
  rw [body] at run
  rw [same, ← remaining]
  refine ⟨run, ?_⟩
  rcases ending with ⟨all, sound⟩ | ⟨fewer, error, fault, -⟩
  · exact iff_of_true sound all
  · exact iff_of_false (by simp [fault]) (Nat.ne_of_lt fewer)

/-- A file without a header of a known version is damaged. -/
theorem contents_of_unknown {disk : Disk} {chunk : Chunk} {octets : Bytes}
    (found : disk.read (Path.ofText chunk.path) = .ok octets)
    (unknown : ¬(ChunkHeader.size ≤ octets.length ∧
      (ChunkHeader.decode (octets.take ChunkHeader.size)).isValid)) :
    ∃ damage, chunk.contents disk = ⟨[], some (.corruption damage)⟩ := by
  obtain ⟨file, stands, holds⟩ := exists_fileAt_of_read found
  have unread : (FileReader.ofNumber file).unread disk = octets := holds
  rw [contents, ChunkReader.openPath, stands]
  dsimp only
  rw [ChunkReader.ofFile]
  cases taken : (FileReader.ofNumber file).take ChunkHeader.size disk with
  | mk result behind =>
      cases result with
      | none => exact ⟨_, rfl⟩
      | some head =>
          obtain ⟨split, width⟩ := FileReader.unread_take taken
          rw [unread] at split
          have front : octets.take ChunkHeader.size = head := by
            rw [split, ← width, List.take_left]
          have long : ChunkHeader.size ≤ octets.length := by
            rw [split, List.length_append, width]
            exact Nat.le_add_right _ _
          have foreign : ¬(ChunkHeader.decode head).isValid := fun valid =>
            unknown ⟨long, front ▸ valid⟩
          exact ⟨.foreignHeader chunk.path (ChunkHeader.decode head).version.toNat, by
            simp only [foreign, Bool.false_eq_true, if_false]⟩

/-- Whatever a plain chunk file holds, the longest run of its records is found, and the end behind
it if the file spells these features, and else damage. -/
theorem contents_of_read {disk : Disk} {chunk : Chunk} {octets : Bytes}
    (found : disk.read (Path.ofText chunk.path) = .ok octets)
    (plain : ChunkHeader.size ≤ octets.length →
      (ChunkHeader.decode (octets.take ChunkHeader.size)).isCompressed = false) :
    Longest (announced octets) (octets.drop ChunkHeader.size) (chunk.contents disk).features ∧
      ((chunk.contents disk).fault = none ∧ Spells octets (chunk.contents disk).features ∨
        (∃ damage, (chunk.contents disk).fault = some (.corruption damage)) ∧
          ¬∃ features, Spells octets features) := by
  by_cases header : ChunkHeader.size ≤ octets.length ∧
      (ChunkHeader.decode (octets.take ChunkHeader.size)).isValid
  · obtain ⟨long, known⟩ := header
    obtain ⟨run, ending⟩ := longest_of_plain found long known (plain long)
    have count : announced octets =
        (ChunkHeader.decode (octets.take ChunkHeader.size)).count.toNat := by
      rw [announced, if_pos ⟨long, known⟩]
    rw [← count] at run ending
    refine ⟨run, ?_⟩
    rcases ending with ⟨all, sound⟩ | ⟨fewer, damage⟩
    · exact .inl ⟨sound, long, known, count.symm.trans all.symm, run.leads⟩
    · refine .inr ⟨damage, ?_⟩
      rintro ⟨features, spells⟩
      have few := spells.announced
      rw [spells.eq_of_longest run] at few
      exact Nat.ne_of_gt fewer few
  · obtain ⟨damage, shape⟩ := contents_of_unknown found header
    rw [shape, announced, if_neg header]
    refine ⟨longest_zero _, .inr ⟨⟨damage, rfl⟩, ?_⟩⟩
    rintro ⟨features, spells⟩
    exact header ⟨spells.header, spells.known⟩

/-- What is written for features whose payloads fit: the header, and behind it their records. -/
theorem encode_of_fits {features : List Feature} (number : Nat) (config : SpillConfig)
    (fits : ∀ feature ∈ features, feature.payload.length ≤ maxPayload) :
    encode number features config = .ok
      ((ChunkHeader.ofCounts (UInt64.ofNat number) (UInt64.ofNat features.length)
          config.compress).encode ++
        if config.compress then Codec.pack config.level (features.flatMap ChunkRecord.encode)
        else features.flatMap ChunkRecord.encode) := by
  rw [encode, encodeAll_of_fits fits]
  rfl

/-- Writing puts a header of thirty-two octets and the records of the features into a file, packed if
the settings say so, unless the device fails.  Reading the file gives the features back, for packed
records if packing loses nothing; so does reading any body that unpacks to the records.  Octets whose
flag is clear are read without an error exactly if they spell the features that are handed out.  In
any case the longest run of the announced records at the front of the body is handed out, and if the
octets spell no features damage is then reported. -/
theorem write_and_read_format {features : List Feature}
    (fits : ∀ feature ∈ features, feature.payload.length ≤ maxPayload)
    (few : features.length < 2 ^ 64) :
    (∀ directory number config disk,
      (∃ reason after, write directory number features config disk =
          (.error (.device reason), after)) ∨
        ∃ chunk octets after, write directory number features config disk = (.ok chunk, after) ∧
          after.read (Path.ofText chunk.path) = .ok octets ∧
          (config.compress = false → ∃ header : ChunkHeader, header.encode.length = 32 ∧
            header = .ofCounts (UInt64.ofNat number) (UInt64.ofNat features.length) false ∧
            octets = header.encode ++ features.flatMap ChunkRecord.encode) ∧
          (config.compress = true → octets =
            (ChunkHeader.ofCounts (UInt64.ofNat number) (UInt64.ofNat features.length) true).encode ++
              Codec.pack config.level (features.flatMap ChunkRecord.encode)) ∧
          ((config.compress = true → Codec.Lossless) → chunk.contents after = ⟨features, none⟩)) ∧
      (∀ (chunk : Chunk) (disk : Disk) (number : UInt64) (packed : Bytes),
        Codec.unpack packed = .ofBytes (features.flatMap ChunkRecord.encode) →
        disk.read (Path.ofText chunk.path) = .ok
          ((ChunkHeader.ofCounts number (UInt64.ofNat features.length) true).encode ++ packed) →
        chunk.contents disk = ⟨features, none⟩) ∧
      ∀ (chunk : Chunk) (disk : Disk) (octets : Bytes),
        disk.read (Path.ofText chunk.path) = .ok octets →
        (ChunkHeader.size ≤ octets.length →
          (ChunkHeader.decode (octets.take ChunkHeader.size)).isCompressed = false) →
        (∀ found, chunk.contents disk = ⟨found, none⟩ ↔ Spells octets found) ∧
          Longest (announced octets) (octets.drop ChunkHeader.size)
            (chunk.contents disk).features ∧
          ((¬∃ found, Spells octets found) →
            ∃ damage, (chunk.contents disk).fault = some (.corruption damage)) := by
  refine ⟨?_, ?_, ?_⟩
  · intro directory number config disk
    cases outcome : write directory number features config disk with
    | mk result after =>
        cases result with
        | error error =>
            obtain ⟨reason, rfl⟩ := device_of_write fits outcome
            exact .inl ⟨reason, after, rfl⟩
        | ok chunk =>
            obtain ⟨octets, encoded, rfl, stored⟩ := stored_of_write outcome
            obtain ⟨file, stands, holds⟩ := exists_fileAt_of_read stored.read
            have shape := Except.ok.inj ((encode_of_fits number config fits).symm.trans encoded)
            refine .inr ⟨_, octets, after, rfl, stored.read, ?_, ?_, fun lossless => ?_⟩
            · intro plain
              refine ⟨_, ChunkHeader.length_encode _, rfl, ?_⟩
              rw [← shape, plain]
              rfl
            · intro packed
              rw [← shape, packed]
              rfl
            · exact contents_of_encode lossless stands (holds ▸ encoded) fits few
  · intro chunk disk number packed unpacks found
    obtain ⟨file, stands, holds⟩ := exists_fileAt_of_read found
    exact contents_of_packed stands holds unpacks fits few
  · intro chunk disk octets found plain
    obtain ⟨run, ending⟩ := contents_of_read found plain
    refine ⟨fun features => ⟨fun read => ?_, fun spells => ?_⟩, run, fun none => ?_⟩
    · rcases ending with ⟨-, spells⟩ | ⟨⟨damage, fault⟩, -⟩
      · rwa [read] at spells
      · simp [read] at fault
    · rcases ending with ⟨sound, -⟩ | ⟨-, none⟩
      · rw [spells.eq_of_longest run, ← sound]
      · exact absurd ⟨features, spells⟩ none
    · rcases ending with ⟨-, spells⟩ | ⟨damage, -⟩
      · exact absurd ⟨_, spells⟩ none
      · exact damage

end

section

attribute [local instance] Frame.codec

/-- A packed chunk is read as it was written.  The octets of the file of `cutChunk` announce two
records and hold one. -/
theorem write_and_read_format_cutChunk :
    (∀ feature ∈ [(⟨3, [1]⟩ : Feature)], feature.payload.length ≤ maxPayload) ∧
      [(⟨3, [1]⟩ : Feature)].length < 2 ^ 64 ∧
      (∃ chunk after, write "/" 0 [⟨3, [1]⟩] { SpillConfig.standard with compress := true } ⟨[], []⟩ =
          (.ok chunk, after) ∧
        chunk.contents after = ⟨[⟨3, [1]⟩], none⟩) ∧
      Longest 2 (ChunkRecord.encode ⟨3, [1]⟩) (Merge.cutChunk.contents Merge.cutDisk).features ∧
      ∃ damage, (Merge.cutChunk.contents Merge.cutDisk).fault = some (.corruption damage) := by
  have fits : ∀ feature ∈ [(⟨3, [1]⟩ : Feature)], feature.payload.length ≤ maxPayload := by decide
  obtain ⟨written, -, read⟩ := write_and_read_format fits (by decide)
  have stands : Merge.cutDisk.read (Path.ofText Merge.cutChunk.path) =
      .ok ((ChunkHeader.ofCounts 0 2 false).encode ++ ChunkRecord.encode ⟨3, [1]⟩) := by rfl
  obtain ⟨-, run, damage⟩ := read _ _ _ stands fun _ => by decide +kernel
  have count : announced ((ChunkHeader.ofCounts 0 2 false).encode ++ ChunkRecord.encode ⟨3, [1]⟩) =
      2 := by decide +kernel
  rw [count] at run
  refine ⟨fits, by decide, ?_, run, damage ?_⟩
  · obtain ⟨reason, after, failed⟩ | ⟨chunk, octets, after, done, -, -, -, holds⟩ :=
      written "/" 0 { SpillConfig.standard with compress := true } ⟨[], []⟩
    · have works : (write "/" 0 [⟨3, [1]⟩] { SpillConfig.standard with compress := true }
          ⟨[], []⟩).1.isOk := by decide +kernel
      simp [failed, Except.isOk, Except.toBool] at works
    · exact ⟨chunk, after, done, holds fun _ => Frame.lossless_codec⟩
  · rintro ⟨found, spells⟩
    have same := spells.eq_of_longest (count ▸ run)
    have two := spells.announced
    rw [count, same, Merge.contents_cutChunk] at two
    simp at two

end

end Chunk
end TileBindery
