import TileBindery.Disk.Outlet
import TileBindery.Proofs.Disk.Files

/-!
# Files that are written to

Writing to an open file changes the contents of that file and nothing else.  A buffer in front of a
file never fails, and what the file holds, followed by what waits in the buffer, is what the file
held in the beginning, followed by all pieces that the buffer has taken.
-/

namespace TileBindery
namespace Disk

/-! ### Disks on which files are written -/

/-- A disk `after` files with some of the numbers have been written to. -/
structure Rewrites (disk : Disk) (written : Nat → Prop) (after : Disk) : Prop where
  /-- No file comes. -/
  files : after.files.length = disk.files.length
  /-- All other files are as before. -/
  contents : ∀ number, ¬written number → after.contents number = disk.contents number
  /-- Everything stands where it stood. -/
  entries : ∀ location, after.lookup location = disk.lookup location

namespace Rewrites

variable {disk middle after : Disk} {written more : Nat → Prop}

theorem refl (disk : Disk) (written : Nat → Prop) : disk.Rewrites written disk :=
  ⟨rfl, fun _ _ => rfl, fun _ => rfl⟩

theorem trans (first : disk.Rewrites written middle) (second : middle.Rewrites written after) :
    disk.Rewrites written after where
  files := second.files.trans first.files
  contents number other := (second.contents number other).trans (first.contents number other)
  entries location := (second.entries location).trans (first.entries location)

theorem mono (rewrites : disk.Rewrites written after)
    (wider : ∀ number, written number → more number) : disk.Rewrites more after where
  files := rewrites.files
  contents number other := rewrites.contents number fun own => other (wider number own)
  entries := rewrites.entries

theorem reaches {path : Path} (rewrites : disk.Rewrites written after)
    (reaches : disk.Reaches path) : after.Reaches path := by
  refine reaches.of_keeps fun location _ stands => ?_
  rw [rewrites.entries, stands]

/-- A path is read as before unless a file stands there that has been written to. -/
theorem read {path : Path} {octets : Bytes} (rewrites : disk.Rewrites written after)
    (apart : ∀ number, disk.lookup path.location = some (.file number) → ¬written number)
    (found : disk.read path = .ok octets) : after.read path = .ok octets := by
  obtain ⟨reaches, number, stands, holds⟩ := read_iff.1 found
  refine read_iff.2 ⟨rewrites.reaches reaches, number, ?_, ?_⟩
  · rw [rewrites.entries, stands]
  · rw [rewrites.contents number (apart number stands), holds]

end Rewrites

/-- Writing to a new file keeps it stored, with what it holds then. -/
theorem Stored.of_rewrites {disk middle after : Disk} {path : Path} {octets : Bytes}
    (stored : disk.Stored path octets middle)
    (rewrites : middle.Rewrites (· = disk.files.length) after) :
    disk.Stored path (after.contents disk.files.length) after where
  reaches := stored.reaches
  free := stored.free
  files := rewrites.files.trans stored.files
  contents_new := rfl
  contents_old number real :=
    (rewrites.contents number (Nat.ne_of_lt real)).trans (stored.contents_old number real)
  entries location inner := (rewrites.entries location).trans (stored.entries location inner)

theorem contents_setContents {disk : Disk} {number : Nat} (real : number < disk.files.length)
    (octets : Bytes) : (disk.setContents number octets).contents number = octets := by
  simp [setContents, contents, real]

theorem rewrites_setContents (disk : Disk) (number : Nat) (octets : Bytes) :
    disk.Rewrites (· = number) (disk.setContents number octets) where
  files := List.length_set
  contents other apart := by
    have apart : number ≠ other := Ne.symm apart
    simp [setContents, contents, List.getElem?_set_ne apart]
  entries := lookup_setContents disk number octets

theorem overwrite_end (old octets : Bytes) : overwrite old old.length octets = old ++ octets := by
  simp [overwrite]

/-- An open file that holds `held` and is written on at its end. -/
structure Ends (disk : Disk) (file : OpenFile) (held : Bytes) : Prop where
  /-- The file exists. -/
  real : file.number < disk.files.length
  /-- It holds this. -/
  contents : disk.contents file.number = held
  /-- The next octet goes behind the last. -/
  position : ∀ position ∈ file.position, position = held.length

theorem number_write (disk : Disk) (file : OpenFile) (octets : Bytes) :
    (disk.write file octets).1.number = file.number := by
  unfold Disk.write
  dsimp only
  split <;> rfl

theorem rewrites_write (disk : Disk) (file : OpenFile) (octets : Bytes) :
    disk.Rewrites (· = file.number) (disk.write file octets).2 := by
  unfold Disk.write
  dsimp only
  split
  · exact rewrites_setContents disk _ _
  · exact rewrites_setContents disk _ _

/-- What is written at the end of a file stands behind all that it held. -/
theorem Ends.write {disk : Disk} {file : OpenFile} {held : Bytes} (ends : disk.Ends file held)
    (octets : Bytes) :
    (disk.write file octets).2.Ends (disk.write file octets).1 (held ++ octets) := by
  have rewrites := rewrites_write disk file octets
  refine ⟨?_, ?_, ?_⟩
  · rw [number_write, rewrites.files]
    exact ends.real
  · rw [number_write]
    unfold Disk.write
    dsimp only
    split
    next => rw [contents_setContents ends.real, ends.contents]
    next start found =>
      rw [contents_setContents ends.real, ends.contents, ends.position start found,
        overwrite_end]
  · unfold Disk.write
    dsimp only
    split
    next found => simp [found]
    next start found => simp [ends.position start found]

theorem Ends.of_contents {disk other : Disk} {file : OpenFile} {held : Bytes}
    (ends : disk.Ends file held) (files : disk.files.length ≤ other.files.length)
    (same : other.contents file.number = disk.contents file.number) : other.Ends file held :=
  ⟨Nat.lt_of_lt_of_le ends.real files, same.trans ends.contents, ends.position⟩

end Disk

/-! ### Buffers in front of files -/

namespace WriteBuffer

/-- What a file holds and what waits in front of it make up `octets`. -/
structure Writes (buffer : WriteBuffer OpenFile) (disk : Disk) (octets : Bytes) : Prop where
  /-- The file is written on at its end, and nothing is lost. -/
  whole : ∃ held, disk.Ends buffer.handle held ∧ held ++ buffer.pending = octets

/-- A buffer operation has worked: the file with this number and its buffer make up `octets`. -/
structure Takes (disk : Disk) (number : Nat) (octets : Bytes)
    (outcome : Except DeviceError Unit × WriteBuffer OpenFile × Disk) : Prop where
  /-- It has not failed. -/
  ok : outcome.1 = .ok ()
  /-- The buffer is still one of the file. -/
  same : outcome.2.1.handle.number = number
  /-- File and buffer have taken everything. -/
  writes : outcome.2.1.Writes outcome.2.2 octets
  /-- No other file has changed. -/
  rewrites : disk.Rewrites (· = number) outcome.2.2

variable {buffer : WriteBuffer OpenFile} {disk other : Disk} {octets : Bytes}

/-- Changes to other files do not matter. -/
theorem Writes.of_contents (writes : buffer.Writes disk octets)
    (files : disk.files.length ≤ other.files.length)
    (same : other.contents buffer.handle.number = disk.contents buffer.handle.number) :
    buffer.Writes other octets := by
  obtain ⟨held, ends, whole⟩ := writes.whole
  exact ⟨held, ends.of_contents files same, whole⟩

theorem Writes.real (writes : buffer.Writes disk octets) :
    buffer.handle.number < disk.files.length := by
  obtain ⟨held, ends, -⟩ := writes.whole
  exact ends.real

/-- Handing over what waits never fails. -/
theorem Writes.flush (writes : buffer.Writes disk octets) (append : Bool) (path : String) :
    Takes disk buffer.handle.number octets (buffer.flush (Disk.outlet append path) disk) ∧
      (buffer.flush (Disk.outlet append path) disk).2.1.pending = [] := by
  rw [WriteBuffer.flush]
  split
  next empty => exact ⟨⟨rfl, rfl, writes, .refl disk _⟩, List.isEmpty_iff.1 empty⟩
  next =>
    obtain ⟨held, ends, rfl⟩ := writes.whole
    have written := ends.write buffer.pending
    exact ⟨⟨rfl, Disk.number_write _ _ _, ⟨_, written, List.append_nil _⟩,
      Disk.rewrites_write _ _ _⟩, rfl⟩

/-- A piece that does not fit waits if nothing else does, or goes to the file. -/
theorem Writes.overflow (writes : buffer.Writes disk octets) (append : Bool) (path : String)
    (capacity : Nat) (piece : Bytes) (fits : piece.length < capacity ∨ buffer.pending = []) :
    Takes disk buffer.handle.number (octets ++ piece)
      (buffer.overflow (Disk.outlet append path) capacity piece disk) := by
  obtain ⟨held, ends, rfl⟩ := writes.whole
  rw [WriteBuffer.overflow]
  split
  next => exact ⟨rfl, rfl, ⟨held, ends, (List.append_assoc _ _ _).symm⟩, .refl disk _⟩
  next large =>
    have empty := fits.resolve_left large
    have written := ends.write piece
    refine ⟨rfl, Disk.number_write _ _ _, ⟨_, written, ?_⟩, Disk.rewrites_write _ _ _⟩
    change held ++ piece ++ buffer.pending = held ++ buffer.pending ++ piece
    rw [empty, List.append_nil, List.append_nil]

/-- A buffer takes a piece. -/
theorem Writes.write (writes : buffer.Writes disk octets) (append : Bool) (path : String)
    {capacity : Nat} (some_room : 0 < capacity) (piece : Bytes) :
    Takes disk buffer.handle.number (octets ++ piece)
      (buffer.write (Disk.outlet append path) capacity piece disk) := by
  unfold WriteBuffer.write
  dsimp only
  split
  next =>
    obtain ⟨held, ends, rfl⟩ := writes.whole
    exact ⟨rfl, rfl, ⟨held, ends, (List.append_assoc _ _ _).symm⟩, .refl disk _⟩
  next =>
    split
    next exact_fit =>
      refine writes.overflow append path capacity piece ?_
      rw [← List.length_eq_zero_iff]
      omega
    next =>
      obtain ⟨flushed, empty⟩ := writes.flush append path
      generalize buffer.flush (Disk.outlet append path) disk = outcome at flushed empty
      obtain ⟨result, behind, after⟩ := outcome
      obtain ⟨rfl, same, kept, rewrites⟩ := flushed
      have last := kept.overflow append path capacity piece (.inr empty)
      dsimp only at same last
      rw [same] at last
      exact ⟨last.ok, last.same, last.writes, rewrites.trans last.rewrites⟩

/-- A buffer takes pieces in order. -/
theorem Writes.writeAll (writes : buffer.Writes disk octets) (append : Bool) (path : String)
    {capacity : Nat} (some_room : 0 < capacity) (pieces : List Bytes) :
    Takes disk buffer.handle.number (octets ++ pieces.flatten)
      (buffer.writeAll (Disk.outlet append path) capacity pieces disk) := by
  induction pieces generalizing buffer disk octets with
  | nil =>
      rw [List.flatten_nil, List.append_nil]
      exact ⟨rfl, rfl, writes, .refl disk _⟩
  | cons piece rest ih =>
      have first := writes.write append path some_room piece
      rw [WriteBuffer.writeAll]
      generalize buffer.write (Disk.outlet append path) capacity piece disk = outcome at first
      obtain ⟨result, behind, after⟩ := outcome
      obtain ⟨rfl, same, kept, rewrites⟩ := first
      have last := ih kept
      dsimp only at same last
      rw [same, List.append_assoc] at last
      exact ⟨last.ok, last.same, last.writes, rewrites.trans last.rewrites⟩

end WriteBuffer
end TileBindery
