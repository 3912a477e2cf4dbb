import TileBindery.Proofs.Disk.Separate
import TileBindery.Proofs.Spill.Releases

/-!
# Chunk files are whole

A chunk is written under a temporary name and moved to its own name when it is complete.  The main
statement says when this succeeds, and that whatever stands in the directory before, there is either
a complete chunk afterwards and nothing else has changed, or the chunk's name is as it was and no
file is left under the temporary name.
-/

namespace TileBindery
namespace Chunk

section

variable [Codec] {directory : String} {number : Nat} {features : List Feature} {config : SpillConfig}
  {disk after : Disk} {chunk : Chunk}

/-- All that writing a chunk takes. -/
structure Writable (directory : String) (number : Nat) (features : List Feature) (disk : Disk) :
    Prop where
  /-- Every payload has a length that a record can tell. -/
  fits : ∀ feature ∈ features, feature.payload.length ≤ ChunkRecord.maxPayload
  /-- The temporary name can be given to a file. -/
  begins : disk.Reaches (Path.ofText (temporaryPath directory number))
  /-- Nothing has it yet. -/
  vacant : disk.lookup (Path.ofText (temporaryPath directory number)).location = none
  /-- The name of the chunk can be given to a file. -/
  reaches : disk.Reaches (Path.ofText (chunkPath directory number))
  /-- No directory has it. -/
  free : disk.lookup (Path.ofText (chunkPath directory number)).location ≠ some .directory

theorem encode_ok_iff :
    (∃ octets, encode number features config = .ok octets) ↔
      ∀ feature ∈ features, feature.payload.length ≤ ChunkRecord.maxPayload := by
  refine ⟨?_, fun fits => ?_⟩
  · rintro ⟨octets, encoded⟩
    rw [encode] at encoded
    cases body : ChunkRecord.encodeAll features with
    | error error => simp [body, Except.map] at encoded
    | ok records => exact ChunkRecord.fits_of_encodeAll body
  · rw [encode, ChunkRecord.encodeAll_of_fits fits]
    exact ⟨_, rfl⟩

theorem write_of_writable (config : SpillConfig)
    (writable : Writable directory number features disk) :
    ∃ chunk after, write directory number features config disk = (.ok chunk, after) := by
  let temporary := Path.ofText (temporaryPath directory number)
  obtain ⟨octets, encoded⟩ : ∃ octets, encode number features config = .ok octets :=
    encode_ok_iff.2 writable.fits
  have created := Disk.createFile_iff.2 ⟨writable.begins, writable.vacant, rfl, rfl⟩
  have begun : disk.Stored temporary octets (disk.addFile temporary.location octets) :=
    Disk.stored_addFile octets writable.begins writable.vacant
  have reached := writable.reaches.of_keeps fun location _ => begun.keeps location
  have renamed := begun.reaches_after.rename begun.stands reached fun standing =>
    writable.free ((begun.directory_iff _).1 standing)
  rw [write, place, created]
  simp only [encoded, Disk.write_addFile]
  rw [renamed]
  exact ⟨_, _, rfl⟩

/-- A chunk is written only where that can be done. -/
theorem writable_of_write
    (written : write directory number features config disk = (.ok chunk, after)) :
    Writable directory number features disk := by
  obtain ⟨octets, encoded, -, stored⟩ := stored_of_write written
  rw [write, place] at written
  cases created : disk.createFile (Path.ofText (temporaryPath directory number)) with
  | error error => simp [created] at written
  | ok opened =>
      obtain ⟨begins, vacant, -, -⟩ := Disk.createFile_iff.1 created
      exact ⟨encode_ok_iff.1 ⟨octets, encoded⟩, begins, vacant, stored.reaches, stored.free⟩

/-- What a disk is `after` a chunk has been written: its file is complete. -/
structure Completed (directory : String) (number : Nat) (features : List Feature)
    (config : SpillConfig) (disk : Disk) (octets : Bytes) (after : Disk) : Prop where
  /-- The octets are all that is written of the chunk. -/
  encoded : encode number features config = .ok octets
  /-- The file holds exactly these. -/
  stands : after.read (Path.ofText (chunkPath directory number)) = .ok octets
  /-- A merge that reads the file gets the features, as long as the header can count them and
  packing, if it is asked for, loses none. -/
  contents : (config.compress = true → Codec.Lossless) →
    ∀ chunk : Chunk, chunk.path = chunkPath directory number →
      features.length < 2 ^ 64 → chunk.contents after = ⟨features, none⟩
  /-- Nothing has the temporary name. -/
  gone : after.find (Path.ofText (temporaryPath directory number)) = .error .notFound
  /-- Every other place is as it was. -/
  others : ∀ location, location ≠ (Path.ofText (chunkPath directory number)).location →
    disk.Unchanged after location

/-- What a disk is `after` a chunk could not be written: nothing is left of it. -/
structure Abandoned (directory : String) (number : Nat) (disk after : Disk) : Prop where
  /-- The place of the chunk is as it was. -/
  kept : disk.Unchanged after (Path.ofText (chunkPath directory number)).location
  /-- No file has the temporary name. -/
  gone : ∀ file, after.fileAt (Path.ofText (temporaryPath directory number)) ≠ .ok file
  /-- What had it before is there as it was, unless it was a file, which is gone. -/
  temporary : disk.Unchanged after (Path.ofText (temporaryPath directory number)).location ∨
    (∃ file, disk.lookup (Path.ofText (temporaryPath directory number)).location =
      some (.file file)) ∧
    after.lookup (Path.ofText (temporaryPath directory number)).location = none
  /-- Every other place is as it was. -/
  others : ∀ location, location ≠ (Path.ofText (temporaryPath directory number)).location →
    disk.Unchanged after location

theorem completed_of_write (exist : disk.FilesExist)
    (written : write directory number features config disk = (.ok chunk, after)) :
    ∃ octets, chunk = ⟨chunkPath directory number, number, features.length, octets.length⟩ ∧
      Completed directory number features config disk octets after := by
  have writable := writable_of_write written
  obtain ⟨octets, encoded, rfl, stored⟩ := stored_of_write written
  have others (location : Location)
      (other : location ≠ (Path.ofText (chunkPath directory number)).location) :
      disk.Unchanged after location := stored.unchanged exist other
  refine ⟨octets, rfl, encoded, stored.read, ?_, ?_, others⟩
  · intro lossless chunk own few
    obtain ⟨reaches, file, stands, holds⟩ := Disk.read_iff.1 stored.read
    rw [← own] at reaches stands
    exact contents_of_encode lossless (Disk.fileAt_iff.2 ⟨reaches, stands⟩) (holds ▸ encoded)
      writable.fits few
  · have begun := writable.begins.of_keeps fun location _ => stored.keeps location
    have apart := (temporaryPath_apart directory number number).symm
    exact begun.find_of_vacant ((others _ apart).entry.trans writable.vacant)

theorem abandoned_of_write {error : SortError} (exist : disk.FilesExist)
    (failed : write directory number features config disk = (.error error, after)) :
    Abandoned directory number disk after := by
  have same {location : Location} (kept : after.lookup location = disk.lookup location) :
      disk.Unchanged after location :=
    exist.unchanged (files_of_write_error failed) kept
  have others (location : Location)
      (other : location ≠ (Path.ofText (temporaryPath directory number)).location) :
      disk.Unchanged after location :=
    same ((lookup_of_write_error failed location).resolve_right fun gone => other gone.1)
  refine ⟨others _ (temporaryPath_apart directory number number), ?_, ?_, others⟩
  · rcases cases_of_write_error failed with rfl | ⟨octets, -, -, rfl⟩
    · exact Disk.not_fileAt_dropFile _ _
    · exact Disk.not_fileAt_dropFile _ _
  · exact (lookup_of_write_error failed _).imp same And.right

/-- Whatever stands on the disk, writing a chunk succeeds exactly where it can be done, and then the
chunk is complete; otherwise nothing is left of it. -/
theorem writes_whole_or_nothing (directory : String) (number : Nat) (features : List Feature)
    (config : SpillConfig) {disk : Disk} (exist : disk.FilesExist) :
    (Writable directory number features disk → ∃ octets after,
      write directory number features config disk =
        (.ok ⟨chunkPath directory number, number, features.length, octets.length⟩, after) ∧
      Completed directory number features config disk octets after) ∧
    (¬Writable directory number features disk → ∃ error after,
      write directory number features config disk = (.error error, after) ∧
      Abandoned directory number disk after) := by
  refine ⟨fun writable => ?_, fun blocked => ?_⟩
  · obtain ⟨chunk, after, written⟩ := write_of_writable config writable
    obtain ⟨octets, rfl, completed⟩ := completed_of_write exist written
    exact ⟨octets, after, written, completed⟩
  · cases outcome : write directory number features config disk with
    | mk result after =>
        cases result with
        | ok chunk => exact absurd (writable_of_write outcome) blocked
        | error error => exact ⟨error, after, rfl, abandoned_of_write exist outcome⟩

end

/-- A disk with an old chunk file, and with a file that has the temporary name of another chunk. -/
def staleDisk : Disk :=
  ⟨[(["run", "chunk-000003.chunk"], .file 0), (["run", "chunk-000004.tmp"], .file 1),
    (["run"], .directory)], [[9], [8]]⟩

section

attribute [local instance] Frame.codec

theorem writes_whole_or_nothing_stale :
    (∃ octets after,
      write "/run" 3 [⟨5, [1]⟩] .standard staleDisk =
        (.ok ⟨"/run/chunk-000003.chunk", 3, 1, octets.length⟩, after) ∧
      after.read (Path.ofText "/run/chunk-000003.chunk") = .ok octets ∧
      after.lookup ["run", "chunk-000004.tmp"] = some (.file 1)) ∧
    ∃ error after,
      write "/run" 4 [⟨5, [1]⟩] .standard staleDisk = (.error error, after) ∧
      (∀ file, after.fileAt (Path.ofText "/run/chunk-000004.tmp") ≠ .ok file) ∧
      after.lookup ["run", "chunk-000003.chunk"] = some (.file 0) ∧ after.contents 0 = [9] := by
  have exist : staleDisk.FilesExist := (Disk.separate_of_entries (by decide) (by decide)).real
  have third : chunkPath "/run" 3 = "/run/chunk-000003.chunk" := by decide +kernel
  have fourth : temporaryPath "/run" 4 = "/run/chunk-000004.tmp" := by decide +kernel
  constructor
  · have writable : Writable "/run" 3 [⟨5, [1]⟩] staleDisk :=
      ⟨by decide, ⟨["run"], "chunk-000003.tmp", by decide +kernel⟩, by decide +kernel,
        ⟨["run"], "chunk-000003.chunk", by decide +kernel⟩, by decide +kernel⟩
    obtain ⟨octets, after, written, completed⟩ :=
      (writes_whole_or_nothing "/run" 3 [⟨5, [1]⟩] .standard exist).1 writable
    have other := completed.others ["run", "chunk-000004.tmp"] (by decide +kernel)
    rw [third] at written
    exact ⟨octets, after, written, third ▸ completed.stands, other.entry⟩
  · have blocked : ¬Writable "/run" 4 [⟨5, [1]⟩] staleDisk := fun writable =>
      absurd writable.vacant (by decide +kernel)
    obtain ⟨error, after, failed, abandoned⟩ :=
      (writes_whole_or_nothing "/run" 4 [⟨5, [1]⟩] .standard exist).2 blocked
    have other := abandoned.others ["run", "chunk-000003.chunk"] (by decide +kernel)
    exact ⟨error, after, failed, fourth ▸ abandoned.gone, other.entry, other.contents 0 rfl⟩

end

end Chunk
end TileBindery
