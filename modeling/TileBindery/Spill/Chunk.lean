import TileBindery.Crc32
import TileBindery.Disk.Basic
import TileBindery.Feature
import TileBindery.Spill.Codec
import TileBindery.Spill.Config

/-!
# Chunk files

A chunk file holds sorted features: a header of thirty-two octets and one record a feature.  A
record is the key, the length of the payload, the payload and a check value over all three.  A file
is written under a temporary name and renamed when it is complete, so a name that ends in `.chunk`
never stands for a partial file.
-/

namespace TileBindery

structure ChunkHeader where
  magic : UInt32
  version : UInt32
  flags : UInt32
  number : UInt64
  count : UInt64
  deriving DecidableEq, Repr

namespace ChunkHeader

def size : Nat := 32

/-- The mark of the format: the letters TPSC. -/
def chunkMagic : UInt32 := UInt32.ofNat (Bytes.fromLittleEndian [0x54, 0x50, 0x53, 0x43])

/-- The version that is written and understood. -/
def currentVersion : UInt32 := 1

/-- The header of a complete chunk. -/
def ofCounts (number count : UInt64) (compressed : Bool) : ChunkHeader :=
  ⟨chunkMagic, currentVersion, if compressed then 1 else 0, number, count⟩

/-- The octets of a header.  The last four are reserved. -/
def encode (header : ChunkHeader) : Bytes :=
  Bytes.littleEndian 4 header.magic.toNat ++ Bytes.littleEndian 4 header.version.toNat ++
    Bytes.littleEndian 4 header.flags.toNat ++ Bytes.littleEndian 8 header.number.toNat ++
    Bytes.littleEndian 8 header.count.toNat ++ [0, 0, 0, 0]

/-- The number in a field of `width` octets behind `start` others. -/
def field (octets : Bytes) (start width : Nat) : Nat :=
  Bytes.fromLittleEndian ((octets.drop start).take width)

/-- The header of thirty-two octets. -/
def decode (octets : Bytes) : ChunkHeader where
  magic := UInt32.ofNat (field octets 0 4)
  version := UInt32.ofNat (field octets 4 4)
  flags := UInt32.ofNat (field octets 8 4)
  number := UInt64.ofNat (field octets 12 8)
  count := UInt64.ofNat (field octets 20 8)

/-- The header belongs to a chunk of a known version. -/
def isValid (header : ChunkHeader) : Bool :=
  header.magic = chunkMagic && header.version = currentVersion

def isCompressed (header : ChunkHeader) : Bool := header.flags &&& 1 ≠ 0

end ChunkHeader

namespace ChunkRecord

/-- The largest payload of a record. -/
def maxPayload : Nat := 2 ^ 32 - 1

def content (feature : Feature) : Bytes :=
  Bytes.littleEndian 8 feature.key.toNat ++ Bytes.littleEndian 4 feature.payload.length ++
    feature.payload

def encode (feature : Feature) : Bytes :=
  let content := content feature
  content ++ Bytes.littleEndian 4 (Crc32.checksum content).toNat

/-- The records of features, refused at the first whose payload is too large. -/
def encodeAll : List Feature → Except SortError Bytes
  | [] => .ok []
  | feature :: rest =>
      if maxPayload < feature.payload.length then
        .error (.featureTooLarge feature.payload.length)
      else (encodeAll rest).map (encode feature ++ ·)

end ChunkRecord

structure Chunk where
  path : String
  /-- Number of the chunk, in order of creation. -/
  number : Nat
  count : Nat
  size : Nat
  deriving DecidableEq, Repr

namespace Chunk

/-- The path of a complete chunk file. -/
def chunkPath (directory : String) (number : Nat) : String :=
  Path.join directory ("chunk-" ++ Path.numberText number ++ ".chunk")

/-- The path of a chunk file that is being written. -/
def temporaryPath (directory : String) (number : Nat) : String :=
  Path.join directory ("chunk-" ++ Path.numberText number ++ ".tmp")

/-- The octets of a chunk file: the header and the records, packed if the settings say so. -/
def encode [Codec] (number : Nat) (features : List Feature) (config : SpillConfig) :
    Except SortError Bytes :=
  let header := ChunkHeader.ofCounts (UInt64.ofNat number) (UInt64.ofNat features.length)
    config.compress
  (ChunkRecord.encodeAll features).map fun body =>
    header.encode ++ if config.compress then Codec.pack config.level body else body

/-- Create a file with the octets of a chunk and give it its final name. -/
def place (temporary path : Path) (octets : Except SortError Bytes) (disk : Disk) :
    Except SortError Nat × Disk :=
  match disk.createFile temporary with
  | .error error => (.error (.device error), disk)
  | .ok (file, disk) =>
      match octets with
      | .error error => (.error error, disk)
      | .ok octets =>
          let written := (disk.write file octets).2
          match written.rename temporary path with
          | .error error => (.error (.device error), written)
          | .ok disk => (.ok octets.length, disk)

/-- Write sorted features as a chunk file.  On failure the temporary file is removed. -/
def write [Codec] (directory : String) (number : Nat) (features : List Feature)
    (config : SpillConfig) (disk : Disk) : Except SortError Chunk × Disk :=
  let temporary := Path.ofText (temporaryPath directory number)
  let path := chunkPath directory number
  match place temporary (Path.ofText path) (encode number features config) disk with
  | (.ok size, disk) => (.ok ⟨path, number, features.length, size⟩, disk)
  | (.error error, disk) => (.error error, disk.dropFile temporary)

def delete (chunk : Chunk) (disk : Disk) : Except DeviceError Disk :=
  disk.removeFile (Path.ofText chunk.path)

/-- Remove the file of a chunk if that is possible. -/
def drop (chunk : Chunk) (disk : Disk) : Disk := disk.dropFile (Path.ofText chunk.path)

/-- Remove the files of chunks if that is possible. -/
def dropAll (chunks : List Chunk) (disk : Disk) : Disk :=
  chunks.foldl (fun disk chunk => chunk.drop disk) disk

end Chunk
end TileBindery
