import TileBindery.Archive.Shard
import TileBindery.Proofs.Disk.Writing

/-!
# Shards on a disk

A shard that could be opened on a disk never fails again until it is finished: what it takes goes,
piece by piece, to a file of its own, and nothing else on the disk changes.
-/

namespace TileBindery
namespace Shard

open WriteBuffer

/-- A shard at a path is open: its file has a number, and file and buffer make up `text`. -/
structure Open (config : ArchiveConfig) (path : String) (number : Nat) (text : Bytes) (disk : Disk)
    (shard : Shard Disk OpenFile) : Prop where
  /-- Tiles are accepted. -/
  state : shard.state = .accepting
  /-- Entries are written as configured. -/
  config : shard.config = config
  /-- The destination is a file. -/
  outlet : ∃ append, shard.outlet = Disk.outlet append path
  /-- The path leads to its place. -/
  reaches : disk.Reaches (Path.ofText path)
  /-- The file stands there. -/
  stands : disk.lookup (Path.ofText path).location = some (.file number)
  /-- It takes what the shard takes. -/
  buffer : ∃ buffer, shard.buffer = some buffer ∧ buffer.handle.number = number ∧
    buffer.Writes disk text

variable {config : ArchiveConfig} {path : String} {number index : Nat} {text octets : Bytes}
  {disk after : Disk} {shard : Shard Disk OpenFile} {metadata : Metadata}

/-- Writing to other files does not matter. -/
theorem Open.of_rewrites {written : Nat → Prop} (opened : shard.Open config path number text disk)
    (rewrites : disk.Rewrites written after) (apart : ¬written number) :
    shard.Open config path number text after := by
  obtain ⟨buffer, own, rfl, writes⟩ := opened.buffer
  exact { opened with
    reaches := rewrites.reaches opened.reaches
    stands := (rewrites.entries _).trans opened.stands
    buffer := ⟨buffer, own, rfl, writes.of_contents (Nat.le_of_eq rewrites.files.symm)
      (rewrites.contents _ apart)⟩ }

/-- A new file elsewhere does not matter. -/
theorem Open.of_stored {other : Path} (opened : shard.Open config path number text disk)
    (stored : disk.Stored other octets after)
    (apart : (Path.ofText path).location ≠ other.location) :
    shard.Open config path number text after := by
  obtain ⟨buffer, own, rfl, writes⟩ := opened.buffer
  exact { opened with
    reaches := opened.reaches.of_keeps fun location _ => stored.keeps location
    stands := by
      rw [stored.entries _ opened.reaches.location_ne_nil, if_neg apart]
      exact opened.stands
    buffer := ⟨buffer, own, rfl, writes.of_contents (by rw [stored.files]; exact Nat.le_succ _)
      (stored.contents_old _ writes.real)⟩ }

/-- An open shard takes pieces. -/
theorem Open.put (opened : shard.Open config path number text disk) (pieces : List Bytes) :
    ∃ next behind, shard.put pieces disk = (.ok (), next, behind) ∧
      next.Open config path number (text ++ pieces.flatten) behind ∧
      disk.Rewrites (· = number) behind := by
  obtain ⟨append, outlet⟩ := opened.outlet
  obtain ⟨buffer, own, rfl, writes⟩ := opened.buffer
  have taken := writes.writeAll append path
    (show 0 < capacity by decide) pieces
  rw [Shard.put, own, outlet]
  dsimp only
  generalize buffer.writeAll (Disk.outlet append path) capacity pieces disk = outcome at taken
  obtain ⟨result, after, behind⟩ := outcome
  obtain ⟨rfl, same, writes, rewrites⟩ := taken
  refine ⟨_, _, rfl, ?_, rewrites⟩
  exact { opened with
    outlet := ⟨append, rfl⟩
    reaches := rewrites.reaches opened.reaches
    stands := (rewrites.entries _).trans opened.stands
    buffer := ⟨after, rfl, same, writes⟩ }

/-- Opening a destination where no file stands creates one, or the device refuses. -/
theorem acquire_outlet (append : Bool) {path : String} {disk : Disk}
    (vacant : append = true → ∀ number,
      disk.lookup (Path.ofText path).location ≠ some (.file number)) :
    (∃ reason, (Disk.outlet append path).acquire disk = (.error reason, disk)) ∨
      ∃ position, (Disk.outlet append path).acquire disk =
          (.ok ⟨disk.files.length, position⟩, disk.addFile (Path.ofText path).location []) ∧
        (∀ start ∈ position, start = 0) ∧
        disk.Stored (Path.ofText path) [] (disk.addFile (Path.ofText path).location []) := by
  cases append with
  | false =>
      rw [Disk.outlet]
      dsimp only
      rw [if_neg Bool.false_ne_true]
      cases created : disk.createFile (Path.ofText path) with
      | error reason => exact .inl ⟨reason, rfl⟩
      | ok opened =>
          obtain ⟨file, behind⟩ := opened
          obtain ⟨reaches, free, rfl, rfl⟩ := Disk.createFile_iff.1 created
          exact .inr ⟨some 0, rfl, by simp, Disk.stored_addFile [] reaches free⟩
  | true =>
      rw [Disk.outlet]
      dsimp only
      rw [if_pos rfl]
      cases opened : disk.appendFile (Path.ofText path) with
      | error reason => exact .inl ⟨reason, rfl⟩
      | ok result =>
          obtain ⟨file, behind⟩ := result
          obtain ⟨reaches, ⟨number, stands, -⟩ | ⟨free, rfl, rfl⟩⟩ := Disk.appendFile_ok opened
          · exact absurd stands (vacant rfl number)
          · exact .inr ⟨none, rfl, by simp, Disk.stored_addFile [] reaches free⟩

/-- A shard that has not been used, with a file as its destination. -/
def unused (config : ArchiveConfig) (index : Nat) (path : String) : Shard Disk OpenFile :=
  .ofOutlet index config (Disk.outlet config.append path)

/-- Beginning a shard where no file stands opens a new file with the header in it, or the device
refuses and nothing changes. -/
theorem begin_unused (config : ArchiveConfig) (index : Nat) (metadata : Metadata)
    (vacant : config.append = true → ∀ number,
      disk.lookup (Path.ofText path).location ≠ some (.file number)) :
    (∃ reason failed,
        (unused config index path).begin metadata disk = (.error (.device reason), failed, disk) ∧
          failed.buffer = none) ∨
      ∃ opened behind held,
        (unused config index path).begin metadata disk = (.ok (), opened, behind) ∧
        disk.Stored (Path.ofText path) held behind ∧
        opened.Open config path disk.files.length (config.headerPieces metadata).flatten behind := by
  rw [begin, if_neg (by simp [unused, ofOutlet]), acquire]
  rcases acquire_outlet config.append vacant with ⟨reason, refused⟩ |
    ⟨position, created, start, stored⟩
  · simp only [unused, ofOutlet, refused]
    exact .inl ⟨reason, _, rfl, rfl⟩
  · right
    simp only [unused, ofOutlet, created]
    have opened : Open config path disk.files.length [] (disk.addFile (Path.ofText path).location [])
        { index, config, outlet := Disk.outlet config.append path, tried := true,
          buffer := some (.ofHandle ⟨disk.files.length, position⟩), state := .accepting,
          tilesWritten := 0 } := by
      have ends : (disk.addFile (Path.ofText path).location []).Ends
          ⟨disk.files.length, position⟩ [] :=
        ⟨by rw [stored.files]; exact Nat.lt_succ_self _, stored.contents_new, start⟩
      refine ⟨rfl, rfl, ⟨config.append, rfl⟩, stored.reaches_after, stored.stands,
        ⟨_, rfl, rfl, ⟨[], ends, rfl⟩⟩⟩
    obtain ⟨next, behind, put, after, rewrites⟩ := opened.put (config.headerPieces metadata)
    rw [List.nil_append] at after
    exact ⟨next, behind, _, put, stored.of_rewrites rewrites, after⟩

/-- An open shard takes a tile. -/
theorem Open.write (opened : shard.Open config path number text disk) (tile : Tile)
    (data : Option Bytes) :
    ∃ next behind, shard.write tile data disk = (.ok (), next, behind) ∧
      next.Open config path number (text ++ (config.tilePieces tile data).flatten) behind ∧
      disk.Rewrites (· = number) behind := by
  obtain ⟨next, behind, put, after, rewrites⟩ := opened.put (config.tilePieces tile data)
  rw [Shard.write, ensureOpen, opened.state]
  simp only [opened.config, put]
  exact ⟨_, behind, rfl, { after with }, rewrites⟩

/-- Finishing an open shard leaves all that it has taken in its file, with the footer behind it. -/
theorem Open.finish (opened : shard.Open config path number text disk) (metadata : Metadata) :
    ∃ file closed behind, shard.finish metadata disk = (.ok file, closed, behind) ∧
      closed.buffer = none ∧
      behind.read (Path.ofText path) =
        .ok (text ++ (config.footerPieces metadata).flatten) ∧
      disk.Rewrites (· = number) behind := by
  obtain ⟨next, after, put, still, rewrites⟩ := opened.put (config.footerPieces metadata)
  rw [Shard.finish, ensureOpen, opened.state]
  simp only [opened.config, put]
  obtain ⟨append, outlet⟩ := still.outlet
  obtain ⟨buffer, own, rfl, writes⟩ := still.buffer
  obtain ⟨flushed, empty⟩ := writes.flush append path
  simp only [own, outlet]
  generalize buffer.flush (Disk.outlet append path) after = outcome at flushed empty
  obtain ⟨result, last, behind⟩ := outcome
  obtain ⟨rfl, same, ⟨held, ends, whole⟩, changed⟩ := flushed
  dsimp only at same empty
  rw [empty, List.append_nil] at whole
  refine ⟨_, _, behind, rfl, rfl, ?_, rewrites.trans changed⟩
  refine Disk.read_iff.2 ⟨changed.reaches still.reaches, buffer.handle.number, ?_, ?_⟩
  · rw [changed.entries, still.stands]
  · rw [← same, ends.contents, whole]

/-- Letting go of an open shard leaves all that it has taken in its file. -/
theorem Open.release (opened : shard.Open config path number text disk) :
    (shard.release disk).2.read (Path.ofText path) = .ok text ∧
      disk.Rewrites (· = number) (shard.release disk).2 := by
  obtain ⟨append, outlet⟩ := opened.outlet
  obtain ⟨buffer, own, rfl, writes⟩ := opened.buffer
  obtain ⟨flushed, empty⟩ := writes.flush append path
  rw [Shard.release, own, outlet]
  dsimp only
  generalize buffer.flush (Disk.outlet append path) disk = outcome at flushed empty
  obtain ⟨result, last, behind⟩ := outcome
  obtain ⟨-, same, ⟨held, ends, whole⟩, changed⟩ := flushed
  dsimp only at same empty changed ⊢
  rw [empty, List.append_nil] at whole
  refine ⟨Disk.read_iff.2 ⟨changed.reaches opened.reaches, buffer.handle.number, ?_, ?_⟩, changed⟩
  · rw [changed.entries, opened.stands]
  · rw [← same, ends.contents, whole]

end Shard
end TileBindery
