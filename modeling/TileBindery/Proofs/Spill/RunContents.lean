import TileBindery.Spill.Merge

/-!
# The contents of runs

What a run of a merge holds, taken together: the features that can be read of it, and the error that
reading on behind them fails with.  The main statements say that the contents are what `Run.next`
hands out, and that the names on a disk do not matter to a run that is open.
-/

namespace TileBindery

/-- What can be read of a run. -/
structure RunContents where
  /-- The features, in order. -/
  features : List Feature
  /-- What reading on behind the last feature fails with; without it the run ends there. -/
  fault : Option SortError
  deriving DecidableEq, Repr

namespace RunContents

/-- Contents behind one more feature. -/
def cons (feature : Feature) (contents : RunContents) : RunContents :=
  { contents with features := feature :: contents.features }

/-- Features, and how reading them ended. -/
def ofResult (result : List Feature × Except SortError Unit) : RunContents where
  features := result.1
  fault := match result.2 with
    | .ok () => none
    | .error error => some error

end RunContents

namespace Disk

theorem contents_congr {disk other : Disk} (same : other.files = disk.files) (number : Nat) :
    other.contents number = disk.contents number := by
  rw [contents, contents, same]

@[simp]
theorem files_unbind (disk : Disk) (location : Location) :
    (disk.unbind location).files = disk.files := rfl

@[simp]
theorem files_dropFile (disk : Disk) (path : Path) : (disk.dropFile path).files = disk.files := by
  rw [dropFile, removeFile]
  cases disk.findFile path <;> rfl

end Disk

namespace FileReader

theorem take_congr {disk other : Disk} (same : other.files = disk.files) (count : Nat)
    (reader : FileReader) : reader.take count other = reader.take count disk := by
  unfold take fetch
  rw [Disk.contents_congr same]

end FileReader

namespace ChunkReader

theorem take_congr {disk other : Disk} (same : other.files = disk.files) (count : Nat)
    (body : ChunkBody) : body.take count other = body.take count disk := by
  cases body with
  | plain file => simp only [ChunkBody.take, FileReader.take_congr same]
  | unpacked source => rfl

theorem record_congr {disk other : Disk} (same : other.files = disk.files) (body : ChunkBody) :
    record other body = record disk body := by
  simp only [record, recordTail, take_congr same]

theorem next_congr {disk other : Disk} (same : other.files = disk.files) (reader : ChunkReader) :
    reader.next other = reader.next disk := by
  simp only [next, record_congr same]

theorem readAll_of_none {reader after : ChunkReader} {disk : Disk}
    (taken : reader.next disk = (.ok none, after)) : reader.readAll disk = ([], .ok ()) := by
  rw [readAll]
  split
  next found => simp [taken] at found
  next => rfl
  next found => simp [taken] at found

theorem readAll_of_error {reader after : ChunkReader} {disk : Disk} {error : SortError}
    (taken : reader.next disk = (.error error, after)) :
    reader.readAll disk = ([], .error error) := by
  rw [readAll]
  split
  next found =>
    simp only [taken, Prod.mk.injEq, Except.error.injEq] at found
    rw [found.1]
  next found => simp [taken] at found
  next found => simp [taken] at found

theorem readAll_of_some {reader after : ChunkReader} {disk : Disk} {feature : Feature}
    (taken : reader.next disk = (.ok (some feature), after)) :
    reader.readAll disk = (feature :: (after.readAll disk).1, (after.readAll disk).2) := by
  rw [readAll]
  split
  next found => simp [taken] at found
  next found => simp [taken] at found
  next found =>
    simp only [taken, Prod.mk.injEq, Except.ok.injEq, Option.some.injEq] at found
    rw [found.1, found.2]

theorem readAll_congr {disk other : Disk} (same : other.files = disk.files)
    (reader : ChunkReader) : reader.readAll other = reader.readAll disk := by
  induction left : reader.remaining using Nat.strongRecOn generalizing reader with
  | ind count ih =>
      cases taken : reader.next disk with
      | mk result after =>
          have moved : reader.next other = (result, after) := by rw [next_congr same, taken]
          match result with
          | .error error => rw [readAll_of_error taken, readAll_of_error moved]
          | .ok none => rw [readAll_of_none taken, readAll_of_none moved]
          | .ok (some feature) =>
              have fewer : after.remaining < count := left ▸ remaining_of_next taken
              rw [readAll_of_some taken, readAll_of_some moved, ih _ fewer after rfl]

/-- What is left to read of a chunk file. -/
def contents (disk : Disk) (reader : ChunkReader) : RunContents :=
  .ofResult (reader.readAll disk)

end ChunkReader

namespace Run

/-- What is left to read of a run. -/
def contents (disk : Disk) : Run → RunContents
  | .chunk _ reader => reader.contents disk
  | .memory features => ⟨features, none⟩

theorem contents_of_some {run after : Run} {disk : Disk} {feature : Feature}
    (taken : run.next disk = (.ok (some feature), after)) :
    run.contents disk = (after.contents disk).cons feature := by
  cases run with
  | chunk file reader =>
      simp only [next, Prod.mk.injEq] at taken
      obtain ⟨result, rfl⟩ := taken
      have found : reader.next disk = (.ok (some feature), (reader.next disk).2) :=
        Prod.ext result rfl
      simp only [contents, ChunkReader.contents, ChunkReader.readAll_of_some found]
      rfl
  | memory features =>
      cases features with
      | nil => simp [next] at taken
      | cons first rest =>
          simp only [next, Prod.mk.injEq, Except.ok.injEq, Option.some.injEq] at taken
          obtain ⟨rfl, rfl⟩ := taken
          rfl

theorem contents_of_none {run after : Run} {disk : Disk}
    (taken : run.next disk = (.ok none, after)) : run.contents disk = ⟨[], none⟩ := by
  cases run with
  | chunk file reader =>
      simp only [next, Prod.mk.injEq] at taken
      have found : reader.next disk = (.ok none, (reader.next disk).2) := Prod.ext taken.1 rfl
      simp only [contents, ChunkReader.contents, ChunkReader.readAll_of_none found]
      rfl
  | memory features =>
      cases features with
      | nil => rfl
      | cons first rest => simp [next] at taken

theorem contents_of_error {run after : Run} {disk : Disk} {error : SortError}
    (taken : run.next disk = (.error error, after)) :
    run.contents disk = ⟨[], some error⟩ := by
  cases run with
  | chunk file reader =>
      simp only [next, Prod.mk.injEq] at taken
      have found : reader.next disk = (.error error, (reader.next disk).2) := Prod.ext taken.1 rfl
      simp only [contents, ChunkReader.contents, ChunkReader.readAll_of_error found]
      rfl
  | memory features => cases features <;> simp [next] at taken

theorem next_congr {disk other : Disk} (same : other.files = disk.files) (run : Run) :
    run.next other = run.next disk := by
  cases run with
  | chunk file reader => simp only [next, ChunkReader.next_congr same]
  | memory features => cases features <;> rfl

theorem contents_congr {disk other : Disk} (same : other.files = disk.files) (run : Run) :
    run.contents other = run.contents disk := by
  cases run with
  | chunk file reader => simp only [contents, ChunkReader.contents, ChunkReader.readAll_congr same]
  | memory features => rfl

@[simp]
theorem files_drop (run : Run) (disk : Disk) : (run.drop disk).files = disk.files := by
  cases run with
  | chunk file reader => exact Disk.files_dropFile _ _
  | memory features => rfl

end Run

namespace Chunk

/-- What can be read of a chunk's file, which may be nothing but an error. -/
def contents [Codec] (disk : Disk) (chunk : Chunk) : RunContents :=
  match ChunkReader.openPath chunk.path disk with
  | .ok reader => reader.contents disk
  | .error error => ⟨[], some error⟩

/-- A chunk's file cannot be opened, or its first feature cannot be read. -/
def Unreadable [Codec] (disk : Disk) (chunk : Chunk) : Prop :=
  (∃ error, ChunkReader.openPath chunk.path disk = .error error) ∨
    ∃ reader error, ChunkReader.openPath chunk.path disk = .ok reader ∧
      (reader.next disk).1 = .error error

end Chunk
end TileBindery
