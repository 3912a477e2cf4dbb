import TileBindery.Proofs.Archive.Upkeep
import TileBindery.Proofs.Disk.Directories
import TileBindery.Proofs.Disk.Writing

/-!
# How far a disk may change

Work on a disk is kept within bounds: it does what it likes in a place of its own, but elsewhere it
only creates directories and files where nothing stands, and writes on at the ends of some files.
The main statements say of each operation on which conditions it stays within such bounds.
-/

namespace TileBindery

/-- Opening a destination may be refused; otherwise a file is found or created. -/
theorem Disk.acquire_cases (append : Bool) (path : String) (disk : Disk) :
    (∃ reason, (outlet append path).acquire disk = (.error reason, disk)) ∨
      (append = true ∧ ∃ number,
        disk.lookup (Path.ofText path).location = some (.file number) ∧
          (outlet append path).acquire disk = (.ok ⟨number, none⟩, disk)) ∨
      ∃ position, disk.lookup (Path.ofText path).location = none ∧
        (outlet append path).acquire disk =
          (.ok ⟨disk.files.length, position⟩, disk.addFile (Path.ofText path).location []) ∧
        disk.Stored (Path.ofText path) [] (disk.addFile (Path.ofText path).location []) := by
  cases append with
  | false =>
      simp only [outlet, Bool.false_eq_true, if_false]
      cases created : disk.createFile (Path.ofText path) with
      | error reason => exact .inl ⟨reason, rfl⟩
      | ok opened =>
          obtain ⟨file, behind⟩ := opened
          obtain ⟨reaches, free, rfl, rfl⟩ := createFile_iff.1 created
          exact .inr (.inr ⟨some 0, free, rfl, stored_addFile [] reaches free⟩)
  | true =>
      simp only [outlet, if_true]
      cases opened : disk.appendFile (Path.ofText path) with
      | error reason => exact .inl ⟨reason, rfl⟩
      | ok found =>
          obtain ⟨file, behind⟩ := found
          obtain ⟨reaches, ⟨number, stands, rfl, rfl⟩ | ⟨free, rfl, rfl⟩⟩ := appendFile_ok opened
          · exact .inr (.inl ⟨trivial, number, stands, rfl⟩)
          · exact .inr (.inr ⟨none, free, rfl, stored_addFile [] reaches free⟩)

/-- What work on a disk may change. -/
structure Leeway where
  /-- The disk before the work. -/
  start : Disk
  /-- Places at which it may do anything but remove directories. -/
  own : Location → Prop
  /-- Places at which it may create directories. -/
  roads : Location → Prop
  /-- Places at which it may create files. -/
  targets : Location → Prop
  /-- Files that it may write on at their ends. -/
  appended : Nat → Prop

namespace Leeway

/-- What stands at a place has been created there. -/
inductive Created (leeway : Leeway) (disk : Disk) (location : Location) : Prop where
  | directory (road : leeway.roads location) (stands : disk.lookup location = some .directory)
  | file (number : Nat) (target : leeway.targets location)
      (fresh : leeway.start.files.length ≤ number)
      (stands : disk.lookup location = some (.file number))

/-- A disk is within bounds. -/
structure Allows (leeway : Leeway) (disk : Disk) : Prop where
  /-- No file is forgotten. -/
  files : leeway.start.files.length ≤ disk.files.length
  /-- Old files hold what they held, some of them with something behind it. -/
  contents : ∀ number < leeway.start.files.length,
    disk.contents number = leeway.start.contents number ∨
      leeway.appended number ∧ leeway.start.contents number <+: disk.contents number
  /-- No directory is gone. -/
  keeps : ∀ location, leeway.start.lookup location = some .directory →
    disk.lookup location = some .directory
  /-- Elsewhere everything stands where it stood, or has been created where nothing stood. -/
  outside : ∀ location, ¬leeway.own location →
    disk.lookup location = leeway.start.lookup location ∨
      leeway.start.lookup location = none ∧ leeway.Created disk location

/-- Writing to an open file stays within bounds. -/
def Fits (leeway : Leeway) (file : OpenFile) : Prop :=
  leeway.start.files.length ≤ file.number ∨ leeway.appended file.number ∧ file.position = none

variable {leeway : Leeway} {disk after : Disk}

theorem Created.congr {location : Location} (created : leeway.Created disk location)
    (same : after.lookup location = disk.lookup location) : leeway.Created after location := by
  cases created with
  | directory road stands => exact .directory road (same.trans stands)
  | file number target fresh stands => exact .file number target fresh (same.trans stands)

namespace Allows

theorem vacant (allows : leeway.Allows disk) {location : Location}
    (outer : ¬leeway.own location) (free : disk.lookup location = none) :
    leeway.start.lookup location = none := by
  rcases allows.outside location outer with same | ⟨nothing, -⟩
  · exact same.symm.trans free
  · exact nothing

/-- What stands outside the own place is as before if it has not changed since. -/
theorem outside_of_same (allows : leeway.Allows disk) {location : Location}
    (outer : ¬leeway.own location) (same : after.lookup location = disk.lookup location) :
    after.lookup location = leeway.start.lookup location ∨
      leeway.start.lookup location = none ∧ leeway.Created after location := by
  rcases allows.outside location outer with still | ⟨free, created⟩
  · exact .inl (same.trans still)
  · exact .inr ⟨free, created.congr same⟩

/-- Directories may be created in the own place and on roads. -/
theorem of_grows (allows : leeway.Allows disk) (grows : disk.Grows after)
    (within : ∀ location, after.lookup location ≠ disk.lookup location →
      leeway.own location ∨ leeway.roads location) : leeway.Allows after := by
  refine ⟨(congrArg List.length grows.files).symm ▸ allows.files,
    fun number real => ?_, fun location stands => ?_, fun location outer => ?_⟩
  · rw [Disk.contents, grows.files]
    exact allows.contents number real
  · have still := allows.keeps location stands
    rcases grows.entries location with same | ⟨free, -⟩
    · exact same.trans still
    · rw [free] at still
      cases still
  · rcases grows.entries location with same | ⟨free, new⟩
    · exact allows.outside_of_same outer same
    · have road := (within location (by simp [free, new])).resolve_left outer
      exact .inr ⟨allows.vacant outer free, .directory road new⟩

/-- Names of files may be removed in the own place, whatever new files come without a name. -/
theorem of_removed (allows : leeway.Allows disk) (files : disk.files <+: after.files)
    (within : ∀ location, after.lookup location = disk.lookup location ∨
      leeway.own location ∧ ∃ number, disk.lookup location = some (.file number)) :
    leeway.Allows after := by
  refine ⟨Nat.le_trans allows.files files.length_le, fun number real => ?_,
    fun location stands => ?_, fun location outer => ?_⟩
  · have same : after.contents number = disk.contents number := by
      rw [Disk.contents, Disk.contents]
      obtain ⟨more, shape⟩ := files
      rw [← shape, List.getElem?_append_left (Nat.lt_of_lt_of_le real allows.files)]
    rw [same]
    exact allows.contents number real
  · have still := allows.keeps location stands
    rcases within location with same | ⟨-, number, file⟩
    · exact same.trans still
    · rw [file] at still
      cases still
  · exact allows.outside_of_same outer ((within location).resolve_right fun own => outer own.1)

theorem of_sheds (allows : leeway.Allows disk) (sheds : disk.Sheds after)
    (within : ∀ location, after.lookup location ≠ disk.lookup location → leeway.own location) :
    leeway.Allows after := by
  apply allows.of_removed (sheds.files ▸ List.prefix_rfl)
  intro location
  rcases sheds.entries location with same | ⟨stood, gone⟩
  · exact .inl same
  · refine .inr ⟨within location fun same => ?_, stood⟩
    obtain ⟨number, file⟩ := stood
    rw [gone, file] at same
    cases same

/-- A file may be put into the own place, and created at a target where nothing stands. -/
theorem of_stored {path : Path} {octets : Bytes} (allows : leeway.Allows disk)
    (stored : disk.Stored path octets after)
    (place : leeway.own path.location ∨
      leeway.targets path.location ∧ disk.lookup path.location = none) :
    leeway.Allows after := by
  refine ⟨?_, fun number real => ?_, fun location stands => ?_, fun location outer => ?_⟩
  · rw [stored.files]
    exact Nat.le_succ_of_le allows.files
  · rw [stored.contents_old number (Nat.lt_of_lt_of_le real allows.files)]
    exact allows.contents number real
  · exact stored.keeps location (allows.keeps location stands)
  · by_cases root : location = []
    · refine allows.outside_of_same outer ?_
      rw [root, Disk.lookup_nil, Disk.lookup_nil]
    · by_cases own : location = path.location
      · obtain rfl := own
        obtain ⟨target, free⟩ := place.resolve_left outer
        exact .inr ⟨allows.vacant outer free, .file _ target allows.files stored.stands⟩
      · exact allows.outside_of_same outer (by rw [stored.entries location root, if_neg own])

/-- Files that fit may be written to. -/
theorem write {file : OpenFile} (allows : leeway.Allows disk) (fits : leeway.Fits file)
    (octets : Bytes) : leeway.Allows (disk.write file octets).2 := by
  have rewrites := Disk.rewrites_write disk file octets
  refine ⟨?_, fun number real => ?_, fun location stands => ?_, fun location outer => ?_⟩
  · rw [rewrites.files]
    exact allows.files
  · by_cases own : number = file.number
    · obtain ⟨appended, behind⟩ :=
        fits.resolve_left fun fresh => Nat.not_lt.2 fresh (own ▸ real)
      obtain rfl := own
      have grown : (disk.write file octets).2.contents file.number =
          disk.contents file.number ++ octets := by
        simp only [Disk.write, behind]
        exact Disk.contents_setContents (Nat.lt_of_lt_of_le real allows.files) _
      have before : leeway.start.contents file.number <+: disk.contents file.number := by
        rcases allows.contents file.number real with same | ⟨-, front⟩
        · exact same ▸ List.prefix_rfl
        · exact front
      rw [grown]
      exact .inr ⟨appended, before.trans (List.prefix_append _ _)⟩
    · rw [rewrites.contents number own]
      exact allows.contents number real
  · rw [rewrites.entries]
    exact allows.keeps location stands
  · exact allows.outside_of_same outer (rewrites.entries location)

end Allows

theorem Fits.write {file : OpenFile} (fits : leeway.Fits file) (disk : Disk) (octets : Bytes) :
    leeway.Fits (disk.write file octets).1 := by
  rcases fits with fresh | ⟨appended, behind⟩
  · left
    rw [Disk.number_write]
    exact fresh
  · right
    rw [Disk.number_write]
    refine ⟨appended, ?_⟩
    simp only [Disk.write, behind]

/-- The file of a path as a destination stays within bounds if it may be created where it is, and
if it may be written on where it is opened for appending. -/
theorem upholds_outlet {append : Bool} {path : String}
    (place : leeway.own (Path.ofText path).location ∨
      leeway.targets (Path.ofText path).location)
    (shared : append = true → ¬leeway.own (Path.ofText path).location ∧
      ∀ number, leeway.start.lookup (Path.ofText path).location = some (.file number) →
        leeway.appended number) :
    (Disk.outlet append path).Upholds leeway.Allows leeway.Fits where
  push file octets disk fits allows := allows.write fits octets
  fits_push file octets disk next fits _ pushed := by
    cases pushed
    exact fits.write disk octets
  acquire disk allows := by
    rcases Disk.acquire_cases append path disk with
      ⟨reason, refused⟩ | ⟨-, number, -, opened⟩ | ⟨position, free, created, stored⟩
    · rw [refused]
      exact allows
    · rw [opened]
      exact allows
    · rw [created]
      exact allows.of_stored stored (place.imp_right fun target => ⟨target, free⟩)
  fits_acquire disk file allows acquired := by
    rcases Disk.acquire_cases append path disk with
      ⟨reason, refused⟩ | ⟨appending, number, stands, opened⟩ | ⟨position, free, created, stored⟩
    · rw [refused] at acquired
      cases acquired
    · rw [opened] at acquired
      cases acquired
      obtain ⟨outer, listed⟩ := shared appending
      rcases allows.outside _ outer with same | ⟨-, new⟩
      · exact .inr ⟨listed number (same ▸ stands), rfl⟩
      · cases new with
        | directory _ directory =>
            rw [stands] at directory
            cases directory
        | file other _ fresh standing =>
            rw [stands] at standing
            cases standing
            exact .inl fresh
    · rw [created] at acquired
      cases acquired
      exact .inl allows.files

end Leeway
end TileBindery
