import TileBindery.Proofs.Disk.Directories
import TileBindery.Proofs.Disk.Writing

/-!
# Files that share nothing

No operation gives a file a second name, so on a disk that has come about by operations every file
that a name refers to exists and has no other name.
-/

namespace TileBindery

/-- The number of the file that an entry refers to. -/
def DiskEntry.number? : DiskEntry → Option Nat
  | .directory => none
  | .file number => some number

namespace Disk

/-- Every file with a name exists, and has no other name. -/
structure Separate (disk : Disk) : Prop where
  /-- The file exists. -/
  real : ∀ location number, disk.lookup location = some (.file number) → number < disk.files.length
  /-- It stands at one place. -/
  single : ∀ location other number, disk.lookup location = some (.file number) →
    disk.lookup other = some (.file number) → location = other

theorem mem_entries_of_lookup {disk : Disk} {location : Location} {number : Nat}
    (stands : disk.lookup location = some (.file number)) :
    (location, .file number) ∈ disk.entries := by
  by_cases root : location = []
  · rw [root, lookup_nil] at stands
    cases stands
  · rw [lookup_eq root, List.lookup_eq_some_iff] at stands
    obtain ⟨front, back, shape, -⟩ := stands
    rw [shape]
    exact List.mem_append_right _ List.mem_cons_self

/-- A disk is checked entry by entry. -/
theorem separate_of_entries {disk : Disk}
    (real : ∀ entry ∈ disk.entries, ∀ number ∈ entry.2.number?, number < disk.files.length)
    (single : ∀ entry ∈ disk.entries, ∀ other ∈ disk.entries, entry.1 ≠ other.1 →
      entry.2.number? = none ∨ entry.2.number? ≠ other.2.number?) : disk.Separate where
  real location number stands := real _ (mem_entries_of_lookup stands) number rfl
  single location other number stands also := by
    by_cases same : location = other
    · exact same
    · rcases single _ (mem_entries_of_lookup stands) _ (mem_entries_of_lookup also) same with
        none | different
      · cases none
      · exact absurd rfl different

namespace Separate

variable {disk after : Disk}

/-- Names may go, and contents may change. -/
theorem of_names (separate : disk.Separate) (files : disk.files.length ≤ after.files.length)
    (names : ∀ location number, after.lookup location = some (.file number) →
      disk.lookup location = some (.file number)) : after.Separate where
  real location number stands :=
    Nat.lt_of_lt_of_le (separate.real location number (names location number stands)) files
  single location other number stands also :=
    separate.single location other number (names _ _ stands) (names _ _ also)

/-- A new file has one name. -/
theorem of_stored {path : Path} {octets : Bytes} (separate : disk.Separate)
    (stored : disk.Stored path octets after) : after.Separate := by
  have names (location : Location) (number : Nat)
      (stands : after.lookup location = some (.file number)) :
      location = path.location ∧ number = disk.files.length ∨
        disk.lookup location = some (.file number) ∧ number < disk.files.length := by
    by_cases root : location = []
    · rw [root, lookup_nil] at stands
      cases stands
    · rw [stored.entries location root] at stands
      split at stands
      next same =>
        cases stands
        exact .inl ⟨same, rfl⟩
      next => exact .inr ⟨stands, separate.real location number stands⟩
  refine ⟨fun location number stands => ?_, fun location other number stands also => ?_⟩
  · rw [stored.files]
    rcases names location number stands with ⟨-, rfl⟩ | ⟨-, real⟩
    · exact Nat.lt_succ_self _
    · exact Nat.lt_succ_of_lt real
  · rcases names location number stands with ⟨rfl, rfl⟩ | ⟨first, real⟩
    · rcases names other _ also with ⟨rfl, -⟩ | ⟨-, lost⟩
      · rfl
      · exact absurd lost (Nat.lt_irrefl _)
    · rcases names other number also with ⟨-, rfl⟩ | ⟨second, -⟩
      · exact absurd real (Nat.lt_irrefl _)
      · exact separate.single location other number first second

theorem of_grows (separate : disk.Separate) (grows : disk.Grows after) : after.Separate :=
  separate.of_names (Nat.le_of_eq (congrArg List.length grows.files.symm))
    fun location number => (grows.file_iff location number).1

theorem of_rewrites {written : Nat → Prop} (separate : disk.Separate)
    (rewrites : disk.Rewrites written after) : after.Separate :=
  separate.of_names (Nat.le_of_eq rewrites.files.symm) fun location _ stands =>
    (rewrites.entries location).symm.trans stands

end Separate
end Disk
end TileBindery
