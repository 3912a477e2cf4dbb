import TileBindery.Disk.FileReader
import TileBindery.Spill.Chunk

/-!
# Reading chunk files

A reader keeps its file open and gives the features one by one until the count of the header is
reached.  It reports a file that ends too early or a record that differs from its check value.
Changes to the file show in what has not been read ahead.
-/

namespace TileBindery

/-- The octets of a chunk file behind its header. -/
inductive ChunkBody where
  | plain (file : FileReader)
  | unpacked (source : ByteSource)
  deriving DecidableEq, Repr

namespace ChunkBody

/-- Reasons why a body does not hand out octets. -/
inductive Lack where
  | ended
  | broken (error : DeviceError)
  deriving DecidableEq, Repr

/-- Hand out the next `count` octets.  A body without as many has nothing left. -/
def take (count : Nat) (disk : Disk) : ChunkBody → Except Lack Bytes × ChunkBody
  | .plain file =>
      match file.take count disk with
      | (some octets, file) => (.ok octets, .plain file)
      | (none, file) => (.error .ended, .plain file)
  | .unpacked source =>
      match source.take count with
      | .all octets rest => (.ok octets, .unpacked rest)
      | .ended => (.error .ended, .unpacked { source with octets := [] })
      | .broken error => (.error (.broken error), .unpacked { source with octets := [] })

/-- The body behind a header, once the header has been read from a file. -/
def ofFile [Codec] (header : ChunkHeader) (file : FileReader) (disk : Disk) : ChunkBody :=
  if header.isCompressed then .unpacked (Codec.unpack (file.unread disk)) else .plain file

end ChunkBody

/-- A record as it is read: its feature, and the check value behind it. -/
structure StoredRecord where
  feature : Feature
  stored : UInt32
  deriving DecidableEq, Repr

/-- A chunk file that is being read. -/
structure ChunkReader where
  path : String
  header : ChunkHeader
  remaining : Nat
  /-- The body behind the records already read. -/
  body : ChunkBody
  deriving DecidableEq, Repr

namespace ChunkReader

def ofFile [Codec] (path : String) (file : FileReader) (disk : Disk) :
    Except SortError ChunkReader :=
  match file.take ChunkHeader.size disk with
  | (none, _) => .error (.corruption (.cutHeader path))
  | (some head, file) =>
      let header := ChunkHeader.decode head
      if header.isValid then
        .ok { path, header, remaining := header.count.toNat, body := .ofFile header file disk }
      else .error (.corruption (.foreignHeader path header.version.toNat))

def openPath [Codec] (path : String) (disk : Disk) : Except SortError ChunkReader :=
  match disk.fileAt (Path.ofText path) with
  | .error error => .error (.device error)
  | .ok number => ofFile path (.ofNumber number) disk

/-- Read the payload and the check value of a record with a key and a length. -/
def recordTail (key length : Nat) (disk : Disk) (body : ChunkBody) :
    Except ChunkBody.Lack StoredRecord × ChunkBody :=
  match body.take length disk with
  | (.error lack, body) => (.error lack, body)
  | (.ok payload, body) =>
      match body.take 4 disk with
      | (.error lack, body) => (.error lack, body)
      | (.ok stored, body) =>
          (.ok ⟨⟨UInt64.ofNat key, payload⟩, UInt32.ofNat (Bytes.fromLittleEndian stored)⟩, body)

def record (disk : Disk) (body : ChunkBody) : Except ChunkBody.Lack StoredRecord × ChunkBody :=
  match body.take 8 disk with
  | (.error lack, body) => (.error lack, body)
  | (.ok key, body) =>
      match body.take 4 disk with
      | (.error lack, body) => (.error lack, body)
      | (.ok length, body) =>
          recordTail (Bytes.fromLittleEndian key) (Bytes.fromLittleEndian length) disk body

/-- What a reader reports when its body lacks octets. -/
def fault (reader : ChunkReader) : ChunkBody.Lack → SortError
  | .ended =>
      .corruption (.cutRecords reader.path reader.remaining reader.header.count.toNat)
  | .broken error => .device error

/-- Read the next feature, or `none` behind the last.  A record with a wrong check value is passed
over but still counts as unread. -/
def next (reader : ChunkReader) (disk : Disk) : Except SortError (Option Feature) × ChunkReader :=
  if reader.remaining = 0 then (.ok none, reader)
  else
    match record disk reader.body with
    | (.error lack, body) => (.error (reader.fault lack), { reader with body })
    | (.ok found, body) =>
        let computed := Crc32.checksum (ChunkRecord.content found.feature)
        if found.stored = computed then
          (.ok (some found.feature), { reader with remaining := reader.remaining - 1, body })
        else
          (.error (.corruption (.checksum reader.path found.stored computed)), { reader with body })

theorem remaining_of_next {reader after : ChunkReader} {disk : Disk} {feature : Feature}
    (h : reader.next disk = (.ok (some feature), after)) :
    after.remaining < reader.remaining := by
  unfold next at h
  split at h
  · simp at h
  next left =>
    split at h
    · simp at h
    · simp only at h
      split at h
      · cases h
        exact Nat.sub_lt (Nat.pos_of_ne_zero left) Nat.one_pos
      · simp at h

def reads (disk : Disk) : Nat → ChunkReader → List (Except SortError (Option Feature))
  | 0, _ => []
  | count + 1, reader =>
      let (result, after) := reader.next disk
      result :: reads disk count after

/-- Read all features up to the end or the first error. -/
def readAll (disk : Disk) (reader : ChunkReader) : List Feature × Except SortError Unit :=
  match taken : reader.next disk with
  | (.error error, _) => ([], .error error)
  | (.ok none, _) => ([], .ok ())
  | (.ok (some feature), after) =>
      have := remaining_of_next taken
      let (features, result) := readAll disk after
      (feature :: features, result)
  termination_by reader.remaining

end ChunkReader
end TileBindery
