import TileBindery.Proofs.Disk.Files

/-!
# Directories that come and files that go

Creating directories adds directories only, and removing files takes away files only.  A tree that
is removed takes with it what lies below its name and nothing else.
-/

namespace TileBindery
namespace Disk

/-! ### Disks that grow -/

/-- A disk `after` directories have been created where nothing stood. -/
structure Grows (disk after : Disk) : Prop where
  /-- All files are as before. -/
  files : after.files = disk.files
  /-- What is new is a directory. -/
  entries : ∀ location, after.lookup location = disk.lookup location ∨
    disk.lookup location = none ∧ after.lookup location = some .directory

namespace Grows

variable {disk middle after : Disk}

theorem refl (disk : Disk) : disk.Grows disk := ⟨rfl, fun _ => .inl rfl⟩

theorem trans (first : disk.Grows middle) (second : middle.Grows after) : disk.Grows after := by
  refine ⟨second.files.trans first.files, fun location => ?_⟩
  rcases second.entries location with same | ⟨vacant, new⟩
  · rcases first.entries location with still | ⟨vacant, new⟩
    · exact .inl (same.trans still)
    · exact .inr ⟨vacant, same.trans new⟩
  · rcases first.entries location with still | ⟨-, stands⟩
    · exact .inr ⟨still ▸ vacant, new⟩
    · rw [vacant] at stands
      cases stands

theorem file_iff (grows : disk.Grows after) (location : Location) (number : Nat) :
    after.lookup location = some (.file number) ↔ disk.lookup location = some (.file number) := by
  rcases grows.entries location with same | ⟨vacant, new⟩
  · rw [same]
  · simp [vacant, new]

end Grows

theorem grows_bind {disk : Disk} {location : Location} (vacant : disk.lookup location = none) :
    disk.Grows (disk.bind location .directory) := by
  refine ⟨rfl, fun other => ?_⟩
  by_cases root : other = []
  · exact .inl (by rw [root, lookup_nil, lookup_nil])
  · rw [lookup_bind root]
    by_cases same : other = location
    · exact .inr ⟨same ▸ vacant, if_pos same⟩
    · exact .inl (if_neg same)

/-- A directory is created at the place of its path, where nothing stood. -/
theorem makeDirectory_ok {disk after : Disk} {path : Path}
    (made : disk.makeDirectory path = .ok after) :
    disk.lookup path.location = none ∧ after = disk.bind path.location .directory := by
  rw [makeDirectory] at made
  cases approached : disk.approach path with
  | error error => simp [approached] at made
  | ok led =>
      obtain ⟨directory, last⟩ := led
      cases last with
      | here => simp [approached] at made
      | above => simp [approached] at made
      | name name =>
          simp only [approached, look] at made
          by_cases long : maxName < name.utf8ByteSize
          · simp [long] at made
          · simp only [if_neg long] at made
            rw [location_of_approach approached, PathEnd.location]
            cases stands : disk.lookup (directory ++ [name]) with
            | some entry => simp [stands] at made
            | none =>
                simp only [stands, Except.ok.injEq] at made
                exact ⟨rfl, made.symm⟩

theorem grows_makeDirectory {disk after : Disk} {path : Path}
    (made : disk.makeDirectory path = .ok after) : disk.Grows after := by
  obtain ⟨vacant, rfl⟩ := makeDirectory_ok made
  exact grows_bind vacant

/-- What creating single directories keeps is kept by creating one after those above it. -/
theorem of_makeAll {safe : Disk → Prop} {disk : Disk} {path : Path} {above : List Path}
    (start : safe disk)
    (step : ∀ way ∈ path :: above, ∀ disk after, safe disk →
      disk.makeDirectory way = .ok after → safe after) :
    safe (disk.makeAll path above).2 := by
  have own := step path List.mem_cons_self
  induction above generalizing path with
  | nil =>
      rw [makeAll]
      split
      next made => exact own disk _ start made
      next =>
        split
        · exact start
        · split <;> exact start
  | cons next rest ih =>
      have outer := ih (fun way member => step way (List.mem_cons_of_mem _ member))
        (step next (List.mem_cons_of_mem _ List.mem_cons_self))
      unfold makeAll
      split
      next made => exact own disk _ start made
      next =>
        split
        · exact start
        · split
          · dsimp only
            generalize disk.makeAll next rest = outcome at outer
            obtain ⟨_ | _, middle⟩ := outcome
            · exact outer
            · dsimp only
              split
              next made => exact own middle _ outer made
              next => split <;> exact outer
          · exact start

theorem grows_makeDirectories (disk : Disk) (path : Path) :
    disk.Grows (disk.makeDirectories path).2 := by
  apply of_makeAll (Grows.refl disk)
  intro _ _ _ _ grown made
  exact grown.trans (grows_makeDirectory made)

/-! ### Disks that shed files -/

/-- A disk `after` names of files have been removed. -/
structure Sheds (disk after : Disk) : Prop where
  /-- What the files hold does not change. -/
  files : after.files = disk.files
  /-- What is gone is a file. -/
  entries : ∀ location, after.lookup location = disk.lookup location ∨
    (∃ number, disk.lookup location = some (.file number)) ∧ after.lookup location = none

namespace Sheds

variable {disk middle after : Disk}

theorem refl (disk : Disk) : disk.Sheds disk := ⟨rfl, fun _ => .inl rfl⟩

theorem trans (first : disk.Sheds middle) (second : middle.Sheds after) : disk.Sheds after := by
  refine ⟨second.files.trans first.files, fun location => ?_⟩
  rcases first.entries location with still | ⟨stood, gone⟩
  · rcases second.entries location with same | ⟨stood, gone⟩
    · exact .inl (same.trans still)
    · exact .inr ⟨still ▸ stood, gone⟩
  · rcases second.entries location with same | ⟨_, gone⟩
    · exact .inr ⟨stood, same.trans gone⟩
    · exact .inr ⟨stood, gone⟩

theorem keeps (sheds : disk.Sheds after) (location : Location)
    (stands : disk.lookup location = some .directory) :
    after.lookup location = some .directory := by
  rcases sheds.entries location with same | ⟨⟨number, file⟩, -⟩
  · exact same.trans stands
  · rw [file] at stands
    cases stands

theorem file_of_file (sheds : disk.Sheds after) {location : Location} {number : Nat}
    (stands : after.lookup location = some (.file number)) :
    disk.lookup location = some (.file number) := by
  rcases sheds.entries location with same | ⟨-, gone⟩
  · exact same ▸ stands
  · rw [gone] at stands
    cases stands

theorem directory_iff (sheds : disk.Sheds after) (location : Location) :
    after.lookup location = some .directory ↔ disk.lookup location = some .directory := by
  rcases sheds.entries location with same | ⟨⟨number, stood⟩, gone⟩
  · rw [same]
  · simp [stood, gone]

theorem vacant {location : Location} (sheds : disk.Sheds after)
    (vacant : disk.lookup location = none) : after.lookup location = none := by
  rcases sheds.entries location with same | ⟨-, gone⟩
  · exact same.trans vacant
  · exact gone

/-- A path is read as before if its file is not gone. -/
theorem read {path : Path} {octets : Bytes} (sheds : disk.Sheds after)
    (still : after.lookup path.location = disk.lookup path.location)
    (found : disk.read path = .ok octets) : after.read path = .ok octets := by
  obtain ⟨reaches, number, stands, holds⟩ := read_iff.1 found
  refine read_iff.2 ⟨reaches.of_keeps fun location _ => sheds.keeps location, number,
    still.trans stands, ?_⟩
  rw [← holds, contents, contents, sheds.files]

end Sheds

theorem removeFile_ok {disk after : Disk} {path : Path} (removed : disk.removeFile path = .ok after) :
    path.location ≠ [] ∧ (∃ number, disk.lookup path.location = some (.file number)) ∧
      after = disk.unbind path.location := by
  rw [removeFile] at removed
  cases found : disk.findFile path with
  | error error => simp [found, Except.map] at removed
  | ok place =>
      obtain ⟨reaches, location, stands⟩ := reaches_of_findFile found
      simp only [found, Except.map, Except.ok.injEq] at removed
      exact ⟨reaches.location_ne_nil, ⟨_, stands⟩, by rw [← removed, location]⟩

theorem sheds_removeFile {disk after : Disk} {path : Path}
    (removed : disk.removeFile path = .ok after) : disk.Sheds after := by
  obtain ⟨inner, stood, rfl⟩ := removeFile_ok removed
  refine ⟨rfl, fun location => ?_⟩
  by_cases root : location = []
  · exact .inl (by rw [root, lookup_nil, lookup_nil])
  · rw [lookup_unbind root]
    by_cases same : location = path.location
    · exact .inr ⟨same ▸ stood, if_pos same⟩
    · exact .inl (if_neg same)

theorem sheds_dropFile (disk : Disk) (path : Path) : disk.Sheds (disk.dropFile path) := by
  rw [dropFile]
  split
  next removed => exact sheds_removeFile removed
  next => exact .refl disk

theorem lookup_dropFile (disk : Disk) (path : Path) (location : Location) :
    (disk.dropFile path).lookup location = disk.lookup location ∨
      location = path.location ∧ (∃ number, disk.lookup location = some (.file number)) ∧
        (disk.dropFile path).lookup location = none := by
  rw [dropFile]
  split
  next removed =>
    obtain ⟨inner, stood, rfl⟩ := removeFile_ok removed
    by_cases root : location = []
    · exact .inl (by rw [root, lookup_nil, lookup_nil])
    · rw [lookup_unbind root]
      by_cases same : location = path.location
      · exact .inr ⟨same, same ▸ stood, if_pos same⟩
      · exact .inl (if_neg same)
  next => exact .inl rfl

theorem dropFile_of_stands {disk : Disk} {path : Path} {number : Nat} (reaches : disk.Reaches path)
    (stands : disk.lookup path.location = some (.file number)) :
    disk.dropFile path = disk.unbind path.location := by
  rw [dropFile, removeFile, reaches.findFile stands]
  rfl

/-- A new file that is removed again leaves everything where it stood. -/
theorem lookup_dropFile_addFile {disk : Disk} {path : Path} (reaches : disk.Reaches path)
    (vacant : disk.lookup path.location = none) (octets : Bytes) (location : Location) :
    ((disk.addFile path.location octets).dropFile path).lookup location = disk.lookup location := by
  have created := stored_addFile octets reaches vacant
  rw [dropFile_of_stands created.reaches_after created.stands]
  by_cases root : location = []
  · rw [root, lookup_nil, lookup_nil]
  · rw [lookup_unbind root, created.entries location root]
    by_cases same : location = path.location
    · rw [if_pos same, same, vacant]
    · rw [if_neg same, if_neg same]

/-- No file is found where one has been removed, or could not be removed. -/
theorem not_fileAt_dropFile (disk : Disk) (path : Path) (number : Nat) :
    (disk.dropFile path).fileAt path ≠ .ok number := by
  intro found
  obtain ⟨reaches, stands⟩ := fileAt_iff.1 found
  have sheds := sheds_dropFile disk path
  have reached : disk.Reaches path :=
    reaches.of_keeps fun location _ => (sheds.directory_iff location).1
  have stood := sheds.file_of_file stands
  rw [dropFile_of_stands reached stood, lookup_unbind reached.location_ne_nil, if_pos rfl] at stands
  cases stands

/-! ### Trees that are removed -/

theorem location_of_find {disk : Disk} {path : Path} {location : Location} {entry : DiskEntry}
    (found : disk.find path = .ok (location, entry)) : location = path.location := by
  rw [find] at found
  cases approached : disk.approach path with
  | error error => simp [approached] at found
  | ok led =>
      obtain ⟨directory, last⟩ := led
      rw [location_of_approach approached]
      simp only [approached] at found
      cases last with
      | here =>
          cases found
          rfl
      | above =>
          cases found
          rfl
      | name name =>
          dsimp only at found
          split at found
          · simp at found
          · simp at found
          · cases found
            rfl
          · split at found
            · simp at found
            · cases found
              rfl

theorem location_of_findDirectory {disk : Disk} {path : Path} {location : Location}
    (found : disk.findDirectory path = .ok location) : location = path.location := by
  rw [findDirectory] at found
  split at found
  · simp at found
  · simp at found
  next standing =>
    cases found
    exact location_of_find standing

theorem lookup_clear {location root : Location} (disk : Disk) (apart : ¬root <+: location) :
    (disk.clear root).lookup location = disk.lookup location := by
  by_cases top : location = []
  · rw [top, lookup_nil, lookup_nil]
  · have kept := lookup_filter disk.entries
      (fun other => !(root.isPrefixOf other && root.length < other.length)) location
    rw [lookup_eq top, lookup_eq top]
    have out : root.isPrefixOf location = false := by
      rw [Bool.eq_false_iff, Ne, List.isPrefixOf_iff_prefix]
      exact apart
    simpa [clear, out] using kept

/-- Removing a tree changes no file, and nothing that does not lie in the tree. -/
theorem removeTree_elsewhere (disk : Disk) (path : Path) :
    (disk.removeTree path).2.files = disk.files ∧
      ∀ location, ¬path.location <+: location →
        (disk.removeTree path).2.lookup location = disk.lookup location := by
  rw [removeTree]
  split
  · exact ⟨rfl, fun _ _ => rfl⟩
  next root found =>
    obtain rfl := location_of_findDirectory found
    dsimp only
    split
    next removed =>
      rw [removeDirectory] at removed
      split at removed
      · simp at removed
      · simp at removed
      · simp at removed
      · split at removed
        · simp at removed
        next again =>
          split at removed
          · cases removed
            obtain rfl := location_of_findDirectory again
            refine ⟨rfl, fun location apart => ?_⟩
            by_cases top : location = []
            · rw [top, lookup_nil, lookup_nil]
            · have other : location ≠ path.location := by
                rintro rfl
                exact apart List.prefix_rfl
              rw [lookup_unbind top, if_neg other, lookup_clear disk apart]
          · simp at removed
    next => exact ⟨rfl, fun _ apart => lookup_clear disk apart⟩
    next => exact ⟨rfl, fun _ apart => lookup_clear disk apart⟩

/-- A path is read alike on disks that agree about all that it may pass through. -/
theorem read_of_lookup {disk other : Disk} {path : Path} {octets : Bytes}
    (files : other.files = disk.files)
    (entries : ∀ location, (∀ name ∈ location, name ∈ path.parts) →
      other.lookup location = disk.lookup location)
    (found : disk.read path = .ok octets) : other.read path = .ok octets := by
  obtain ⟨reaches, number, stands, holds⟩ := read_iff.1 found
  refine read_iff.2 ⟨reaches.of_keeps fun location names directory => ?_, number, ?_, ?_⟩
  · rw [entries location names, directory]
  · rw [entries _ fun _ => Path.mem_parts_of_mem_location, stands]
  · rw [← holds, contents, contents, files]

/-- A path that does not even pass through a tree is read as before when the tree is removed. -/
theorem read_removeTree {disk : Disk} {tree path : Path} {octets : Bytes} {name : String}
    (own : name ∈ tree.location) (other : name ∉ path.parts) :
    (disk.removeTree tree).2.read path = .ok octets ↔ disk.read path = .ok octets := by
  obtain ⟨files, entries⟩ := removeTree_elsewhere disk tree
  have same (location : Location) (names : ∀ name ∈ location, name ∈ path.parts) :
      (disk.removeTree tree).2.lookup location = disk.lookup location :=
    entries location fun inside => other (names name (inside.subset own))
  exact ⟨read_of_lookup files.symm fun location names => (same location names).symm,
    read_of_lookup files same⟩

end Disk
end TileBindery
