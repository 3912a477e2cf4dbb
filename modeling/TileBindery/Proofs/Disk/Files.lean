import TileBindery.Proofs.Disk.Entries

/-!
# Files on a disk

What creating, writing, moving and removing files does to the places and the contents of all files.
The main statements say that a file that is stored at a place can be read there, and that all other
files are read as before.
-/

namespace TileBindery
namespace Disk

/-! ### Contents -/

/-- A file that holds something exists. -/
theorem lt_of_contents {disk : Disk} {number : Nat} (holds : disk.contents number ≠ []) :
    number < disk.files.length := by
  apply Nat.lt_of_not_le
  intro beyond
  exact holds (by simp [contents, List.getElem?_eq_none beyond])

/-- A new file with contents is a new file that they are written into. -/
theorem write_addFile (disk : Disk) (place : Location) (octets : Bytes) :
    ((disk.addFile place []).write ⟨disk.files.length, some 0⟩ octets).2 =
      disk.addFile place octets := by
  simp [write, addFile, contents, setContents, overwrite, bind]

theorem length_addFile (disk : Disk) (place : Location) (octets : Bytes) :
    (disk.addFile place octets).files.length = disk.files.length + 1 := by
  simp [addFile]

theorem contents_addFile_new (disk : Disk) (place : Location) (octets : Bytes) :
    (disk.addFile place octets).contents disk.files.length = octets := by
  simp [addFile, contents]

theorem contents_addFile_old {disk : Disk} {number : Nat} (place : Location) (octets : Bytes)
    (real : number < disk.files.length) :
    (disk.addFile place octets).contents number = disk.contents number := by
  simp [addFile, contents, List.getElem?_append_left real]

/-- What stands at a place is as before, and so is what it holds if it is a file. -/
structure Unchanged (disk after : Disk) (location : Location) : Prop where
  entry : after.lookup location = disk.lookup location
  contents : ∀ number, disk.lookup location = some (.file number) →
    after.contents number = disk.contents number

theorem Unchanged.refl (disk : Disk) (location : Location) : disk.Unchanged disk location :=
  ⟨rfl, fun _ _ => rfl⟩

/-- Every file that has a name exists. -/
def FilesExist (disk : Disk) : Prop :=
  ∀ location number, disk.lookup location = some (.file number) → number < disk.files.length

/-- A place is unchanged where the same stands, as long as no file is written to. -/
theorem FilesExist.unchanged {disk after : Disk} {location : Location} (exist : disk.FilesExist)
    (files : disk.files <+: after.files)
    (same : after.lookup location = disk.lookup location) : disk.Unchanged after location := by
  refine ⟨same, fun number stands => ?_⟩
  obtain ⟨more, shape⟩ := files
  rw [contents, contents, ← shape, List.getElem?_append_left (exist location number stands)]

/-! ### Files that are stored -/

theorem createFile_iff {disk after : Disk} {path : Path} {file : OpenFile} :
    disk.createFile path = .ok (file, after) ↔
      disk.Reaches path ∧ disk.lookup path.location = none ∧
        file = ⟨disk.files.length, some 0⟩ ∧ after = disk.addFile path.location [] := by
  rw [createFile]
  constructor
  · intro created
    cases found : disk.slot path with
    | error error => simp [found] at created
    | ok place =>
        obtain ⟨location, entry⟩ := place
        cases entry with
        | some entry => simp [found] at created
        | none =>
            simp only [found, Except.ok.injEq, Prod.mk.injEq] at created
            obtain ⟨reaches, rfl, free⟩ := reaches_of_slot found (by simp)
            exact ⟨reaches, free.symm, created.1.symm, created.2.symm⟩
  · rintro ⟨reaches, free, rfl, rfl⟩
    rw [reaches.slot, free]

/-- A file is opened for appending, or created where nothing stood. -/
theorem appendFile_ok {disk after : Disk} {path : Path} {file : OpenFile}
    (opened : disk.appendFile path = .ok (file, after)) :
    disk.Reaches path ∧
      ((∃ number, disk.lookup path.location = some (.file number) ∧ file = ⟨number, none⟩ ∧
          after = disk) ∨
        disk.lookup path.location = none ∧ file = ⟨disk.files.length, none⟩ ∧
          after = disk.addFile path.location []) := by
  rw [appendFile] at opened
  cases found : disk.slot path with
  | error error => simp [found] at opened
  | ok place =>
      obtain ⟨location, entry⟩ := place
      cases entry with
      | none =>
          obtain ⟨reaches, rfl, free⟩ := reaches_of_slot found (by simp)
          simp only [found, Except.ok.injEq, Prod.mk.injEq] at opened
          exact ⟨reaches, .inr ⟨free.symm, opened.1.symm, opened.2.symm⟩⟩
      | some entry =>
          cases entry with
          | directory => simp [found] at opened
          | file number =>
              obtain ⟨reaches, rfl, stands⟩ := reaches_of_slot found (by simp)
              simp only [found, Except.ok.injEq, Prod.mk.injEq] at opened
              exact ⟨reaches, .inl ⟨number, stands.symm, opened.1.symm, opened.2.symm⟩⟩

/-- What a disk is `after` a new file with these octets has been put at the place of a path. -/
structure Stored (disk : Disk) (path : Path) (octets : Bytes) (after : Disk) : Prop where
  /-- The path reaches its place. -/
  reaches : disk.Reaches path
  /-- No directory stands there. -/
  free : disk.lookup path.location ≠ some .directory
  /-- One file has come. -/
  files : after.files.length = disk.files.length + 1
  /-- It holds the octets. -/
  contents_new : after.contents disk.files.length = octets
  /-- All others are as before. -/
  contents_old : ∀ number < disk.files.length, after.contents number = disk.contents number
  /-- The file stands there, and everything else where it stood. -/
  entries : ∀ location, location ≠ [] → after.lookup location =
    if location = path.location then some (.file disk.files.length) else disk.lookup location

namespace Stored

variable {disk after : Disk} {path other : Path} {octets old : Bytes}

theorem keeps (stored : disk.Stored path octets after) (location : Location)
    (stands : disk.lookup location = some .directory) :
    after.lookup location = some .directory := by
  by_cases inner : location = []
  · rw [inner, lookup_nil]
  · have apart : location ≠ path.location := by
      rintro rfl
      exact stored.free stands
    rw [stored.entries location inner, if_neg apart, stands]

theorem directory_iff (stored : disk.Stored path octets after) (location : Location) :
    after.lookup location = some .directory ↔ disk.lookup location = some .directory := by
  refine ⟨fun stands => ?_, stored.keeps location⟩
  by_cases inner : location = []
  · rw [inner, lookup_nil]
  · rw [stored.entries location inner] at stands
    split at stands
    · simp at stands
    · exact stands

theorem reaches_after (stored : disk.Stored path octets after) : after.Reaches path :=
  stored.reaches.of_keeps fun location _ => stored.keeps location

theorem stands (stored : disk.Stored path octets after) :
    after.lookup path.location = some (.file disk.files.length) := by
  rw [stored.entries _ stored.reaches.location_ne_nil, if_pos rfl]

/-- A file is read where it has been stored. -/
theorem read (stored : disk.Stored path octets after) : after.read path = .ok octets :=
  read_iff.2 ⟨stored.reaches_after, disk.files.length, stored.stands, stored.contents_new⟩

/-- All other files are read as before. -/
theorem read_other (stored : disk.Stored path octets after)
    (apart : other.location ≠ path.location) (filled : old ≠ [])
    (found : disk.read other = .ok old) : after.read other = .ok old := by
  obtain ⟨reaches, number, stands, holds⟩ := read_iff.1 found
  refine read_iff.2 ⟨reaches.of_keeps fun location _ => stored.keeps location, number, ?_, ?_⟩
  · rw [stored.entries _ reaches.location_ne_nil, if_neg apart, stands]
  · rw [stored.contents_old number (lt_of_contents (holds ▸ filled)), holds]

/-- Storing a file changes its own place only. -/
theorem unchanged {location : Location} (stored : disk.Stored path octets after)
    (exist : disk.FilesExist) (apart : location ≠ path.location) : disk.Unchanged after location := by
  refine ⟨?_, fun number stands => stored.contents_old number (exist location number stands)⟩
  by_cases root : location = []
  · rw [root, lookup_nil, lookup_nil]
  · rw [stored.entries location root, if_neg apart]

end Stored

/-- A file that is created where nothing stood is stored. -/
theorem stored_addFile {disk : Disk} {path : Path} (octets : Bytes) (reaches : disk.Reaches path)
    (vacant : disk.lookup path.location = none) :
    disk.Stored path octets (disk.addFile path.location octets) where
  reaches := reaches
  free := by simp [vacant]
  files := length_addFile disk path.location octets
  contents_new := contents_addFile_new disk path.location octets
  contents_old _ real := contents_addFile_old path.location octets real
  entries _ inner := lookup_addFile inner disk path.location octets

/-- A file is moved to where no directory stands. -/
theorem rename_ok {disk after : Disk} {source target : Path} {number : Nat}
    (reaches : disk.Reaches source) (stands : disk.lookup source.location = some (.file number))
    (renamed : disk.rename source target = .ok after) :
    disk.Reaches target ∧ disk.lookup target.location ≠ some .directory ∧
      after = (disk.unbind source.location).bind target.location (.file number) := by
  rw [rename, reaches.findFile stands] at renamed
  cases found : disk.slot target with
  | error error => simp [found] at renamed
  | ok slot =>
      obtain ⟨place, entry⟩ := slot
      have open_place : entry ≠ some .directory := by
        rintro rfl
        simp [found] at renamed
      obtain ⟨target_reached, rfl, stood⟩ := reaches_of_slot found open_place
      refine ⟨target_reached, fun directory => open_place (stood.trans directory), ?_⟩
      rw [found] at renamed
      split at renamed
      next other => simp at other
      next other => simp at other
      next other => simp_all
      next source_found target_found =>
        cases source_found
        cases target_found
        cases renamed
        rfl

theorem Reaches.rename {disk : Disk} {source target : Path} {number : Nat}
    (reaches : disk.Reaches source)
    (stands : disk.lookup source.location = some (.file number)) (reached : disk.Reaches target)
    (free : disk.lookup target.location ≠ some .directory) :
    disk.rename source target =
      .ok ((disk.unbind source.location).bind target.location (.file number)) := by
  rw [Disk.rename, reaches.findFile stands, reached.slot]
  cases standing : disk.lookup target.location with
  | none => rfl
  | some entry =>
      cases entry with
      | directory => exact absurd standing free
      | file other => rfl

/-- A new file that is moved from a place where nothing stood is stored. -/
theorem stored_of_rename {disk after : Disk} {source target : Path} {octets : Bytes}
    (reaches : disk.Reaches source) (vacant : disk.lookup source.location = none)
    (renamed : (disk.addFile source.location octets).rename source target = .ok after) :
    disk.Stored target octets after := by
  have created := stored_addFile octets reaches vacant
  obtain ⟨target_reached, free, rfl⟩ := rename_ok created.reaches_after created.stands renamed
  refine ⟨target_reached.of_keeps fun location _ => (created.directory_iff location).1,
    fun stands => free (created.keeps _ stands), created.files, created.contents_new,
    created.contents_old, fun location root => ?_⟩
  rw [lookup_bind root, lookup_unbind root, created.entries location root]
  by_cases same : location = source.location
  · rw [same, vacant]
    simp
  · simp [same]

end Disk
end TileBindery
