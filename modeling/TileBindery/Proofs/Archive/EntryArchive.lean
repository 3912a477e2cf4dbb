import Mathlib.Data.List.Forall2
import TileBindery.Archive.EntryStream
import TileBindery.Proofs.Archive.EntryRoundTrip
import TileBindery.Proofs.Archive.Writers

/-!
# Binary archives are read as they were written

A stream of entries is read entry by entry.  The main statement follows an archive of one shard from
the metadata and tiles that are handed to its writer, through its file, to the entries that a reader
gets and the metadata and tiles that these mean.
-/

namespace TileBindery

namespace EntryStream

open EntryFormat

/-! ### Streams -/

theorem readLengthFrom_cons (index value limit : Nat) (octet : UInt8) (rest : Bytes) :
    readLengthFrom index value (.ofBytes (octet :: rest)) (limit + 1) =
      if octet.toNat < 128 then
        .found ((value + octet.toNat % 128 * 2 ^ (7 * index)) % 2 ^ 64) (.ofBytes rest)
      else
        readLengthFrom (index + 1) ((value + octet.toNat % 128 * 2 ^ (7 * index)) % 2 ^ 64)
          (.ofBytes rest) limit := rfl

theorem readLengthFrom_of_lt {index value n limit : Nat} (small : n < 128)
    (whole : value + n * 2 ^ (7 * index) < 2 ^ 64) (rest : Bytes) :
    readLengthFrom index value (.ofBytes (Wire.varint n ++ rest)) (limit + 1) =
      .found (value + n * 2 ^ (7 * index)) (.ofBytes rest) := by
  have octet : (UInt8.ofNat n).toNat = n := UInt8.toNat_ofNat_of_lt' (show n < 256 by omega)
  rw [Wire.varint_of_lt small, List.singleton_append, readLengthFrom_cons, octet, if_pos small,
    Nat.mod_eq_of_lt small, Nat.mod_eq_of_lt whole]

/-- A length is read as it was written, behind octets that make up `value` already. -/
theorem readLengthFrom_varint {index value n limit : Nat} (fits : n < 128 ^ (limit + 1))
    (whole : value + n * 2 ^ (7 * index) < 2 ^ 64) (rest : Bytes) :
    readLengthFrom index value (.ofBytes (Wire.varint n ++ rest)) (limit + 1) =
      .found (value + n * 2 ^ (7 * index)) (.ofBytes rest) := by
  induction limit generalizing index value n with
  | zero => exact readLengthFrom_of_lt fits whole rest
  | succ limit ih =>
      rcases Nat.lt_or_ge n 128 with small | large
      · exact readLengthFrom_of_lt small whole rest
      · have octet : (UInt8.ofNat (n % 128 + 128)).toNat = n % 128 + 128 :=
          UInt8.toNat_ofNat_of_lt' (show _ < 256 by omega)
        have bits : (n % 128 + 128) % 128 = n % 128 := by omega
        have high : n / 128 < 128 ^ (limit + 1) :=
          Nat.div_lt_of_lt_mul (by rwa [Nat.pow_succ, Nat.mul_comm] at fits)
        -- The octet holds the low bits of what is left, and the others stand seven bits higher.
        have join : value + n % 128 * 2 ^ (7 * index) + n / 128 * 2 ^ (7 * (index + 1)) =
            value + n * 2 ^ (7 * index) := by
          have parts : n % 128 + n / 128 * 128 = n := by omega
          calc value + n % 128 * 2 ^ (7 * index) + n / 128 * 2 ^ (7 * (index + 1))
              = value + (n % 128 + n / 128 * 128) * 2 ^ (7 * index) := by
                rw [Nat.mul_succ, Nat.pow_add, Nat.add_mul, Nat.mul_assoc (n / 128),
                  Nat.mul_comm (2 ^ (7 * index)), Nat.add_assoc]
            _ = value + n * 2 ^ (7 * index) := by rw [parts]
        have part : value + n % 128 * 2 ^ (7 * index) < 2 ^ 64 :=
          Nat.lt_of_le_of_lt (Nat.le_add_right _ _) (join ▸ whole)
        rw [Wire.varint_of_le large, List.cons_append, readLengthFrom_cons, octet,
          if_neg (by omega), bits, Nat.mod_eq_of_lt part, ih high (by rwa [join]), join]

/-- A length of 64 bits is read as it was written. -/
theorem readLength_varint {n : Nat} (fits : n < 2 ^ 64) (rest : Bytes) :
    readLength (.ofBytes (Wire.varint n ++ rest)) = .found n (.ofBytes rest) := by
  have read : readLength (.ofBytes (Wire.varint n ++ rest)) = _ :=
    readLengthFrom_varint (Nat.lt_trans fits (by decide)) (by simpa using fits) rest
  rw [read, Nat.zero_add, Nat.mul_zero, Nat.pow_zero, Nat.mul_one]

/-- An entry that is not too large is read from the front of a stream. -/
theorem next_frame {entry : ArchiveEntry} (small : (putEntry entry).length ≤ maxEntry)
    (rest : Bytes) : next (.ofBytes (frame entry ++ rest)) = .entry entry.plain (.ofBytes rest) := by
  have fits : (putEntry entry).length < 2 ^ 64 := Nat.lt_of_le_of_lt small (by decide)
  have taken : (ByteSource.ofBytes (putEntry entry ++ rest)).take (putEntry entry).length =
      .all (putEntry entry) (.ofBytes rest) := by
    simp only [ByteSource.take, ByteSource.ofBytes, Bytes.take?_append]
  rw [next, frame, Wire.putBytes, List.append_assoc, readLength_varint fits]
  simp only [if_neg (Nat.not_lt.2 small), taken, readEntryOctets_putEntry fits]

theorem items_frame {entry : ArchiveEntry} (small : (putEntry entry).length ≤ maxEntry)
    (rest : Bytes) :
    items (.ofBytes (frame entry ++ rest)) = .ok entry.plain :: items (.ofBytes rest) := by
  have found := next_frame small rest
  rw [items]
  split
  next ended => simp [found] at ended
  next failed => simp [found] at failed
  next other =>
    rw [found] at other
    cases other
    rfl

theorem items_nil : items (.ofBytes []) = [] := by
  have ended : next (.ofBytes []) = .ended := rfl
  rw [items]
  split
  next => rfl
  next failed => simp [ended] at failed
  next found => simp [ended] at found

/-- Entries that are not too large are read in order. -/
theorem items_frames {entries : List ArchiveEntry}
    (small : ∀ entry ∈ entries, (putEntry entry).length ≤ maxEntry) :
    items (.ofBytes (entries.flatMap frame)) = entries.map fun entry => .ok entry.plain := by
  induction entries with
  | nil => exact items_nil
  | cons entry rest ih =>
      rw [List.flatMap_cons, items_frame (small entry List.mem_cons_self),
        ih fun other member => small other (List.mem_cons_of_mem _ member), List.map_cons]

end EntryStream

/-! ### Writers -/

namespace ArchiveWriter

open EntryFormat Routing

variable {config : ArchiveConfig} {base : String} {start : Nat} {text : Bytes} {disk : Disk}
  {writer : ArchiveWriter Disk OpenFile} {tiles : List (Tile × Option Bytes)}

/-- What has been taken matters for the shards that exist. -/
theorem Holds.of_text {old new : Nat → Bytes} (holds : writer.Holds config base start old disk)
    (same : ∀ index < config.shards, old index = new index) :
    writer.Holds config base start new disk := by
  refine ⟨holds.count, fun index shard found => ?_⟩
  have below : index < config.shards := by
    rw [← holds.count]
    exact (List.getElem?_eq_some_iff.1 found).1
  have own := holds.all index shard found
  rw [Nat.zero_add] at own ⊢
  rwa [same index below] at own

/-- All tiles go to the only shard, in order. -/
theorem Holds.writeAll (single : config.shards = 1)
    (holds : writer.Holds config base start (fun _ => text) disk)
    (tiles : List (Tile × Option Bytes)) :
    ∃ next behind, writer.writeAll tiles disk = (.ok (), next, behind) ∧
      next.Holds config base start (fun _ => text ++ config.tileOctets tiles) behind := by
  induction tiles generalizing text writer disk with
  | nil => exact ⟨writer, disk, rfl, holds.of_text fun _ _ => (List.append_nil text).symm⟩
  | cons entry rest ih =>
      obtain ⟨middle, between, written, taken⟩ :=
        holds.write (by rw [single]; exact Nat.one_pos) entry.1 entry.2
      have all : middle.Holds config base start
          (fun _ => text ++ (config.tilePieces entry.1 entry.2).flatten) between := by
        refine taken.of_text fun index below => ?_
        rw [if_pos]
        rw [single] at below ⊢
        exact (Nat.lt_one_iff.1 (shardOf_lt Nat.one_pos)).trans (Nat.lt_one_iff.1 below).symm
      obtain ⟨next, behind, done, last⟩ := ih all
      refine ⟨next, behind, ?_, last.of_text fun _ _ => List.append_assoc _ _ _⟩
      rw [ArchiveWriter.writeAll, written]
      exact done

/-- The file of an archive of one shard holds the header, the tiles in order and the footer, unless
the device refuses. -/
theorem archive_spec (single : config.shards = 1)
    (vacant : config.append = true → Vacant base disk 0 1) (initial final : Metadata) :
    (∃ reason, (archive config (fileOf config base) initial final tiles disk).1 =
        .error (.device reason)) ∨
      ∃ files behind,
        archive config (fileOf config base) initial final tiles disk = (.ok files, behind) ∧
        behind.read (Path.ofText base) = .ok ((config.headerPieces initial).flatten ++
          config.tileOctets tiles ++ (config.footerPieces final).flatten) := by
  have some_shard : 0 < config.shards := by
    rw [single]
    exact Nat.one_pos
  rw [archive, ofOutlets_fileOf some_shard]
  dsimp only
  rcases @begin_unused config base disk initial 0 (by rwa [single]) with
    ⟨reason, failed, behind, refused, -⟩ | ⟨opened, middle, begun, holds⟩
  · left
    refine ⟨reason, ?_⟩
    rw [refused]
  · right
    obtain ⟨written, between, tiles_done, taken⟩ := holds.writeAll single tiles
    obtain ⟨files, closed, behind, done, -, found⟩ := taken.finish final
    refine ⟨files, behind, ?_, found 0 some_shard⟩
    rw [begun]
    dsimp only
    rw [tiles_done]
    dsimp only
    rw [done]

end ArchiveWriter

/-! ### Reading archives back -/

namespace EntryStream

open EntryFormat ArchiveWriter Routing

/-- A record says a tile and its data, which is empty for a tile without. -/
structure Says (record : TileRecord) (tile : Tile) (data : Option Bytes) : Prop where
  /-- The column is told. -/
  x : record.x.toInt = tile.x
  /-- The row is told. -/
  y : record.y.toInt = tile.y
  /-- The zoom is told. -/
  z : record.z.toInt = tile.z
  /-- The octets are. -/
  data : record.data = data.getD []

theorem says_ofTile {tile : Tile} (valid : tile.Valid) (data : Option Bytes) :
    Says (.ofTile tile data) tile data := by
  have side : Tile.side tile.z ≤ 2 ^ 15 := Nat.pow_le_pow_right (by decide) valid.1
  have x := Nat.lt_of_lt_of_le valid.2.1 side
  have y := Nat.lt_of_lt_of_le valid.2.2 side
  have z : tile.z ≤ 15 := valid.1
  exact ⟨Int32.toInt_ofNat_of_lt (by omega), Int32.toInt_ofNat_of_lt (by omega),
    Int32.toInt_ofNat_of_lt (by omega), rfl⟩

/-- The entries of an archive. -/
def entriesOf (initial final : Metadata) (tiles : List (Tile × Option Bytes)) :
    List ArchiveEntry :=
  .ofHeader initial :: (tiles.map fun entry => .ofTile entry.1 entry.2) ++ [.ofFooter final]

variable {config : ArchiveConfig} {base : String} {disk : Disk} {initial final : Metadata}
  {tiles : List (Tile × Option Bytes)}

theorem octets_eq_frames (format : config.format = .proto) (initial final : Metadata)
    (tiles : List (Tile × Option Bytes)) :
    (config.headerPieces initial).flatten ++ config.tileOctets tiles ++
        (config.footerPieces final).flatten = (entriesOf initial final tiles).flatMap frame := by
  have binary : ¬config.format.isText := by
    rw [format]
    decide
  have pieces : config.tileOctets tiles =
      (tiles.map fun entry => ArchiveEntry.ofTile entry.1 entry.2).flatMap frame := by
    have each (entry : Tile × Option Bytes) : (config.tilePieces entry.1 entry.2).flatten =
        frame (.ofTile entry.1 entry.2) := by
      rw [ArchiveConfig.tilePieces, if_neg binary, List.flatten_singleton]
    simp only [ArchiveConfig.tileOctets, each, List.flatMap_map]
  simp [ArchiveConfig.headerPieces, ArchiveConfig.footerPieces, binary, pieces, entriesOf]

/-- A binary archive of one shard, none of whose entries is too large, is written unless the device
refuses.  Its file is read as one header, a tile for each that was written, in order and with the
same octets, and one footer, and then ends.  The header and the footer mean the metadata they were
written for, except that empty lists of layers and empty maps are absent, and zeros of bounds and
centers have no sign. -/
theorem items_of_archive (format : config.format = .proto) (single : config.shards = 1)
    (vacant : config.append = true → Vacant base disk 0 1)
    (valid : ∀ entry ∈ tiles, entry.1.Valid)
    (small : ∀ entry ∈ entriesOf initial final tiles, (putEntry entry).length ≤ maxEntry) :
    (∃ reason, (archive config (fileOf config base) initial final tiles disk).1 =
        .error (.device reason)) ∨
      ∃ files behind octets,
        archive config (fileOf config base) initial final tiles disk = (.ok files, behind) ∧
        behind.read (Path.ofText base) = .ok octets ∧
        ∃ header records footer,
          items (.ofBytes octets) = .ok (.header (some header)) ::
            (records.map fun record => .ok (.tile record)) ++ [.ok (.footer (some footer))] ∧
          header.toMetadata = .ok initial.plain ∧
          List.Forall₂ (fun record entry => Says record entry.1 entry.2) records tiles ∧
          footer.toMetadata = .ok final.plain := by
  refine (archive_spec single vacant initial final).imp_right ?_
  rintro ⟨files, behind, done, found⟩
  rw [octets_eq_frames format] at found
  refine ⟨files, behind, _, done, found, (MetadataRecord.ofMetadata initial).plain,
    tiles.map fun entry => .ofTile entry.1 entry.2, (MetadataRecord.ofMetadata final).plain, ?_,
    MetadataRecord.toMetadata_plain initial, ?_, MetadataRecord.toMetadata_plain final⟩
  · rw [items_frames small, entriesOf, List.map_append, List.map_cons, List.map_map, List.map_map]
    rfl
  · rw [List.forall₂_map_left_iff, List.forall₂_same]
    exact fun entry member => says_ofTile (valid entry member) entry.2

/-- Metadata with a zoom below zero, a negative zero in its center, no layers, and an entry without
a text. -/
def sparseMetadata : Metadata :=
  { Metadata.empty with
    center := some ⟨⟨0x8000000000000000⟩, ⟨1⟩⟩, minZoom := some (-3), vectorLayers := some []
    others := some (.ofList [("key", "")]) }

def sparseTiles : List (Tile × Option Bytes) := [(⟨1, 1, 0⟩, none), (⟨0, 0, 0⟩, some [7])]

theorem items_of_archive_sparse :
    ((ArchiveConfig.ofFormat .proto).format = .proto ∧ (ArchiveConfig.ofFormat .proto).shards = 1 ∧
        (∀ entry ∈ sparseTiles, entry.1.Valid) ∧
        ∀ entry ∈ entriesOf sparseMetadata .empty sparseTiles,
          (putEntry entry).length ≤ maxEntry) ∧
      ∃ files behind octets,
        archive (.ofFormat .proto) (fileOf (.ofFormat .proto) "/a") sparseMetadata .empty sparseTiles
          .empty = (.ok files, behind) ∧
        behind.read (Path.ofText "/a") = .ok octets ∧
        ∃ header records footer,
          items (.ofBytes octets) = .ok (.header (some header)) ::
            (records.map fun record => .ok (.tile record)) ++ [.ok (.footer (some footer))] ∧
          header.toMetadata = .ok { sparseMetadata with
            center := some ⟨.zero, ⟨1⟩⟩, vectorLayers := none } ∧
          List.Forall₂ (fun record entry => Says record entry.1 entry.2) records sparseTiles ∧
          footer.toMetadata = .ok .empty := by
  have valid : ∀ entry ∈ sparseTiles, entry.1.Valid := by decide
  have small : ∀ entry ∈ entriesOf sparseMetadata .empty sparseTiles,
      (putEntry entry).length ≤ maxEntry := by decide +kernel
  refine ⟨⟨rfl, rfl, valid, small⟩, ?_⟩
  have written := @items_of_archive (.ofFormat .proto) "/a" .empty sparseMetadata .empty sparseTiles
    rfl rfl nofun valid small
  rcases written with ⟨reason, refused⟩ | written
  · have works : (archive (.ofFormat .proto) (fileOf (.ofFormat .proto) "/a") sparseMetadata .empty
        sparseTiles .empty).1.isOk := by decide +kernel
    rw [refused] at works
    cases works
  · have header : sparseMetadata.plain = { sparseMetadata with
        center := some ⟨.zero, ⟨1⟩⟩, vectorLayers := none } := by decide +kernel
    have footer : Metadata.empty.plain = .empty := rfl
    rwa [header, footer] at written

end EntryStream
end TileBindery
