import TileBindery.Proofs.Disk.Files
import TileBindery.Proofs.Spill.ChunkFile

/-!
# Writing chunk files

A chunk that has been written stands at the path of its number and holds its features, and no other
file has changed.  The chunks of one directory have different places.
-/

namespace TileBindery
namespace Chunk

theorem isName_chunk (number : Nat) :
    Path.IsName ("chunk-" ++ Path.numberText number ++ ".chunk") :=
  Path.isName_number (by decide) (by decide) (by decide) number

theorem location_chunkPath (directory : String) (number : Nat) :
    (Path.ofText (chunkPath directory number)).location =
      (Path.ofText directory).location ++ ["chunk-" ++ Path.numberText number ++ ".chunk"] :=
  Path.location_join (isName_chunk number) directory

theorem chunkPath_apart {a b : Nat} (apart : a ≠ b) (directory : String) :
    (Path.ofText (chunkPath directory a)).location ≠
      (Path.ofText (chunkPath directory b)).location := by
  rw [location_chunkPath, location_chunkPath]
  intro same
  have names := List.singleton_inj.1 (List.append_cancel_left same)
  rw [String.append_left_inj, String.append_right_inj] at names
  exact apart (Path.numberText_injective names)

variable [Codec]

theorem ne_nil_of_encode {number : Nat} {features : List Feature} {config : SpillConfig}
    {octets : Bytes} (encoded : encode number features config = .ok octets) : octets ≠ [] := by
  rw [encode] at encoded
  cases body : ChunkRecord.encodeAll features with
  | error error => simp [body, Except.map] at encoded
  | ok records =>
      simp only [body, Except.map, Except.ok.injEq] at encoded
      rintro rfl
      have header := congrArg List.length encoded
      simp only [List.length_append, ChunkHeader.length_encode, ChunkHeader.size,
        List.length_nil] at header
      omega

/-- A chunk that has been written is stored at its path. -/
theorem stored_of_write {directory : String} {number : Nat} {features : List Feature}
    {config : SpillConfig} {disk after : Disk} {chunk : Chunk}
    (written : write directory number features config disk = (.ok chunk, after)) :
    ∃ octets, encode number features config = .ok octets ∧
      chunk = ⟨chunkPath directory number, number, features.length, octets.length⟩ ∧
      disk.Stored (Path.ofText (chunkPath directory number)) octets after := by
  rw [write, place] at written
  cases created : disk.createFile (Path.ofText (temporaryPath directory number)) with
  | error error => simp [created] at written
  | ok opened =>
      obtain ⟨file, begun⟩ := opened
      obtain ⟨reaches, vacant, rfl, rfl⟩ := Disk.createFile_iff.1 created
      cases encoded : encode number features config with
      | error error => simp [created, encoded] at written
      | ok octets =>
          simp only [created, encoded, Disk.write_addFile] at written
          cases renamed : (disk.addFile (Path.ofText (temporaryPath directory number)).location
              octets).rename (Path.ofText (temporaryPath directory number))
              (Path.ofText (chunkPath directory number)) with
          | error error => simp [renamed] at written
          | ok moved =>
              simp only [renamed, Prod.mk.injEq, Except.ok.injEq] at written
              obtain ⟨rfl, rfl⟩ := written
              exact ⟨octets, rfl, rfl, Disk.stored_of_rename reaches vacant renamed⟩

/-- Writing features whose payloads fit fails for reasons of the device only. -/
theorem device_of_write {directory : String} {number : Nat} {features : List Feature}
    {config : SpillConfig} {disk after : Disk} {error : SortError}
    (fits : ∀ feature ∈ features, feature.payload.length ≤ ChunkRecord.maxPayload)
    (failed : write directory number features config disk = (.error error, after)) :
    ∃ reason, error = .device reason := by
  rw [write, place] at failed
  cases created : disk.createFile (Path.ofText (temporaryPath directory number)) with
  | error reason =>
      simp only [created, Prod.mk.injEq, Except.error.injEq] at failed
      exact ⟨reason, failed.1.symm⟩
  | ok opened =>
      obtain ⟨file, begun⟩ := opened
      simp only [created, encode, ChunkRecord.encodeAll_of_fits fits, Except.map] at failed
      split at failed
      next => simp at failed
      next found =>
        split at found
        next reason renamed =>
          simp only [Prod.mk.injEq, Except.error.injEq] at found failed
          exact ⟨reason, failed.1.symm.trans found.1.symm⟩
        next => simp at found

end Chunk
end TileBindery
