import Mathlib.Logic.Relation
import TileBindery.Proofs.Disk.Removal
import TileBindery.Proofs.Disk.Separate

/-!
# Disks that come about

A disk comes about by operations from one with nothing below its root.  On every such disk each file
has one name, and whatever stands anywhere stands in a directory.
-/

namespace TileBindery
namespace Disk

/-- One operation that succeeds, or removes what it can of a tree. -/
inductive Step : Disk → Disk → Prop where
  | makeDirectory {disk after : Disk} {path : Path} (made : disk.makeDirectory path = .ok after) :
      Step disk after
  | createFile {disk after : Disk} {path : Path} {file : OpenFile}
      (created : disk.createFile path = .ok (file, after)) : Step disk after
  | appendFile {disk after : Disk} {path : Path} {file : OpenFile}
      (opened : disk.appendFile path = .ok (file, after)) : Step disk after
  | openEmpty {disk after : Disk} {path : Path} {file : OpenFile}
      (opened : disk.openEmpty path = .ok (file, after)) : Step disk after
  | write (disk : Disk) (file : OpenFile) (octets : Bytes) : Step disk (disk.write file octets).2
  | modify {disk after : Disk} {path : Path} {change : Bytes → Bytes}
      (changed : disk.modify path change = .ok after) : Step disk after
  | rename {disk after : Disk} {source target : Path}
      (renamed : disk.rename source target = .ok after) : Step disk after
  | removeFile {disk after : Disk} {path : Path} (removed : disk.removeFile path = .ok after) :
      Step disk after
  | removeDirectory {disk after : Disk} {path : Path}
      (removed : disk.removeDirectory path = .ok after) : Step disk after
  | removeTree (disk : Disk) (path : Path) : Step disk (disk.removeTree path).2

/-- Operations one after the other. -/
abbrev Steps : Disk → Disk → Prop := Relation.ReflTransGen Step

/-- A disk that has come about by operations. -/
def Reachable (disk : Disk) : Prop := Steps .empty disk

variable {disk after : Disk} {path source target : Path} {place : Location} {file : OpenFile}

/-! ### Operations that take several steps -/

theorem steps_makeDirectories (disk : Disk) (path : Path) :
    Steps disk (disk.makeDirectories path).2 := by
  apply of_makeAll (Relation.ReflTransGen.refl : Steps disk disk)
  intro _ _ _ _ steps made
  exact steps.tail (.makeDirectory made)

theorem steps_store {octets : Bytes} (stored : disk.store path octets = .ok after) :
    Steps disk after := by
  rw [store] at stored
  cases opened : disk.openEmpty path with
  | error error => simp [opened, Except.map] at stored
  | ok found =>
      obtain ⟨file, middle⟩ := found
      simp only [opened, Except.map, Except.ok.injEq] at stored
      rw [← stored]
      exact .tail (.single (.openEmpty opened)) (.write middle file octets)

theorem steps_dropFile (disk : Disk) (path : Path) : Steps disk (disk.dropFile path) := by
  rw [dropFile]
  split
  next removed => exact .single (.removeFile removed)
  next => exact .refl

/-! ### What operations change -/

/-- A file that is opened empty has been there, or comes. -/
theorem openEmpty_ok (opened : disk.openEmpty path = .ok (file, after)) :
    (∃ number, after = disk.setContents number []) ∨ disk.Stored path [] after := by
  rw [openEmpty] at opened
  cases found : disk.slot path with
  | error error => simp [found] at opened
  | ok slot =>
      obtain ⟨location, entry⟩ := slot
      cases entry with
      | none =>
          obtain ⟨reaches, rfl, free⟩ := reaches_of_slot found (by simp)
          simp only [found, Except.ok.injEq, Prod.mk.injEq] at opened
          rw [← opened.2]
          exact .inr (stored_addFile [] reaches free.symm)
      | some entry =>
          cases entry with
          | directory => simp [found] at opened
          | file number =>
              simp only [found, Except.ok.injEq, Prod.mk.injEq] at opened
              exact .inl ⟨number, opened.2.symm⟩

theorem modify_ok {change : Bytes → Bytes} (changed : disk.modify path change = .ok after) :
    ∃ number octets, after = disk.setContents number octets := by
  rw [modify] at changed
  cases found : disk.fileAt path with
  | error error => simp [found, Except.map] at changed
  | ok number =>
      simp only [found, Except.map, Except.ok.injEq] at changed
      exact ⟨number, _, changed.symm⟩

/-- A file that is moved has one name before and afterwards. -/
theorem moved_of_rename (renamed : disk.rename source target = .ok after) :
    ∃ number, disk.Reaches source ∧ disk.lookup source.location = some (.file number) ∧
      disk.Reaches target ∧ disk.lookup target.location ≠ some .directory ∧
      after = (disk.unbind source.location).bind target.location (.file number) := by
  cases found : disk.findFile source with
  | error error => simp [rename, found] at renamed
  | ok standing =>
      obtain ⟨location, number⟩ := standing
      obtain ⟨reaches, -, stands⟩ := reaches_of_findFile found
      obtain ⟨reached, free, shape⟩ := rename_ok reaches stands renamed
      exact ⟨number, reaches, stands, reached, free, shape⟩

/-- Only a directory with nothing below it is removed. -/
theorem prunes_removeDirectory (removed : disk.removeDirectory path = .ok after) :
    disk.Prunes after := by
  rw [removeDirectory] at removed
  split at removed
  · cases removed
  · cases removed
  · cases removed
  next directory name approached =>
    split at removed
    · cases removed
    next location found =>
      obtain rfl := location_of_findDirectory found
      split at removed
      next vacant =>
        cases removed
        have top : path.location ≠ [] := by
          rw [location_of_approach approached, PathEnd.location]
          exact List.append_ne_nil_of_right_ne_nil _ (List.cons_ne_nil _ _)
        exact prunes_unbind (vacant_of_below (List.isEmpty_iff.1 vacant)) top
      next => cases removed

theorem prunes_removeTree (disk : Disk) (path : Path) : disk.Prunes (disk.removeTree path).2 := by
  cases found : disk.findDirectory path with
  | error error =>
      rw [removeTree, found]
      exact .refl disk
  | ok location =>
      rw [findDirectory] at found
      split at found
      · cases found
      · cases found
      next standing => exact (removes_tree standing).prunes

/-! ### Everything stands in a directory -/

/-- The directory of a place that a path reaches. -/
theorem Reaches.above (reaches : disk.Reaches path) :
    disk.lookup path.location.dropLast = some .directory := by
  obtain ⟨directory, name, approached, -⟩ := reaches
  rw [location_of_approach approached, PathEnd.location, List.dropLast_concat]
  exact solid_of_approach approached _ List.prefix_rfl

theorem above_of_makeDirectory (made : disk.makeDirectory path = .ok after) :
    disk.lookup path.location.dropLast = some .directory := by
  obtain ⟨directory, name, approached, -⟩ := approach_of_makeDirectory made
  rw [location_of_approach approached, PathEnd.location, List.dropLast_concat]
  exact solid_of_approach approached _ List.prefix_rfl

namespace Rooted

theorem empty : Rooted .empty := by
  intro location stands
  cases location with
  | nil => exact lookup_nil _
  | cons name rest => exact absurd rfl stands

/-- What stands at one place may change, if no directory stands there and one stands above. -/
theorem of_place (rooted : disk.Rooted) (inner : place ≠ [])
    (free : disk.lookup place ≠ some .directory)
    (above : disk.lookup place.dropLast = some .directory)
    (others : ∀ location, location ≠ place → after.lookup location = disk.lookup location) :
    after.Rooted := by
  intro location stands
  have shorter : place.dropLast ≠ place := by
    intro same
    have lengths := congrArg List.length same
    have longer := List.length_pos_iff.2 inner
    rw [List.length_dropLast] at lengths
    omega
  by_cases own : location = place
  · rw [own, others _ shorter, above]
  · rw [others location own] at stands
    have directory := rooted location stands
    have outer : location.dropLast ≠ place := by
      rintro rfl
      exact free directory
    rw [others _ outer, directory]

theorem of_lookup (rooted : disk.Rooted)
    (same : ∀ location, after.lookup location = disk.lookup location) : after.Rooted := by
  intro location stands
  rw [same] at stands ⊢
  exact rooted location stands

theorem of_stored {octets : Bytes} (rooted : disk.Rooted)
    (stored : disk.Stored path octets after) : after.Rooted := by
  apply rooted.of_place stored.reaches.location_ne_nil stored.free stored.reaches.above
  intro location other
  by_cases root : location = []
  · rw [root, lookup_nil, lookup_nil]
  · rw [stored.entries location root, if_neg other]

theorem makeDirectory (rooted : disk.Rooted) (made : disk.makeDirectory path = .ok after) :
    after.Rooted := by
  have above := above_of_makeDirectory made
  obtain ⟨vacant, rfl⟩ := makeDirectory_ok made
  have inner : path.location ≠ [] := by
    intro root
    rw [root, lookup_nil] at vacant
    cases vacant
  have free : disk.lookup path.location ≠ some .directory := by
    rw [vacant]
    simp
  exact rooted.of_place inner free above fun _ other => lookup_bind_other other

theorem rename (rooted : disk.Rooted) (renamed : disk.rename source target = .ok after) :
    after.Rooted := by
  obtain ⟨number, reaches, stands, reached, free, rfl⟩ := moved_of_rename renamed
  have open_source : disk.lookup source.location ≠ some .directory := by
    rw [stands]
    simp
  have unbound : (disk.unbind source.location).Rooted :=
    rooted.of_place reaches.location_ne_nil open_source reaches.above
      fun _ other => lookup_unbind_other other
  have outer : target.location.dropLast ≠ source.location := by
    intro same
    apply open_source
    rw [← same]
    exact reached.above
  refine unbound.of_place reached.location_ne_nil ?_ ?_ fun _ other => lookup_bind_other other
  · rw [lookup_unbind reached.location_ne_nil]
    split
    · simp
    · exact free
  · rw [lookup_unbind_other outer, reached.above]

end Rooted

/-! ### Files share nothing -/

namespace Separate

theorem empty : Separate .empty where
  real location number stands := by
    cases location with
    | nil => cases stands
    | cons name rest => cases stands
  single location other number stands _ := by
    cases location with
    | nil => cases stands
    | cons name rest => cases stands

theorem of_prunes (separate : disk.Separate) (prunes : disk.Prunes after) : after.Separate :=
  separate.of_names (Nat.le_of_eq (congrArg List.length prunes.files.symm))
    fun _ _ => prunes.stands

theorem rename (separate : disk.Separate) (renamed : disk.rename source target = .ok after) :
    after.Separate := by
  obtain ⟨number, -, stands, -, -, rfl⟩ := moved_of_rename renamed
  have names (location : Location) (found : Nat)
      (standing : ((disk.unbind source.location).bind target.location (.file number)).lookup
        location = some (.file found)) :
      location = target.location ∧ found = number ∨
        location ≠ source.location ∧ disk.lookup location = some (.file found) := by
    by_cases root : location = []
    · rw [root, lookup_nil] at standing
      cases standing
    · rw [lookup_bind root, lookup_unbind root] at standing
      split at standing
      next same =>
        cases standing
        exact .inl ⟨same, rfl⟩
      next =>
        split at standing
        · cases standing
        next other => exact .inr ⟨other, standing⟩
  refine ⟨fun location found standing => ?_, fun location other found standing also => ?_⟩
  · rcases names location found standing with ⟨-, rfl⟩ | ⟨-, old⟩
    · exact separate.real _ _ stands
    · exact separate.real _ _ old
  · -- the moved file had its only name where it came from
    rcases names location found standing with ⟨rfl, rfl⟩ | ⟨apart, old⟩
    · rcases names other _ also with ⟨rfl, -⟩ | ⟨away, held⟩
      · rfl
      · exact absurd (separate.single _ _ _ held stands) away
    · rcases names other found also with ⟨-, rfl⟩ | ⟨-, held⟩
      · exact absurd (separate.single _ _ _ old stands) apart
      · exact separate.single _ _ _ old held

end Separate

/-! ### Whatever is done -/

/-- Every operation keeps files apart and everything in directories. -/
theorem Step.sound (step : Step disk after) (separate : disk.Separate) (rooted : disk.Rooted) :
    after.Separate ∧ after.Rooted := by
  have rewritten {other : Disk} {written : Nat → Prop} (rewrites : disk.Rewrites written other) :
      other.Separate ∧ other.Rooted :=
    ⟨separate.of_rewrites rewrites, rooted.of_lookup rewrites.entries⟩
  have pruned {other : Disk} (prunes : disk.Prunes other) : other.Separate ∧ other.Rooted :=
    ⟨separate.of_prunes prunes, prunes.rooted rooted⟩
  have stored {other : Disk} {path : Path} (stored : disk.Stored path [] other) :
      other.Separate ∧ other.Rooted :=
    ⟨separate.of_stored stored, rooted.of_stored stored⟩
  cases step with
  | makeDirectory made =>
      exact ⟨separate.of_grows (grows_makeDirectory made), rooted.makeDirectory made⟩
  | createFile created =>
      obtain ⟨reaches, vacant, -, rfl⟩ := createFile_iff.1 created
      exact stored (stored_addFile [] reaches vacant)
  | appendFile opened =>
      obtain ⟨reaches, ⟨_, -, -, rfl⟩ | ⟨vacant, -, rfl⟩⟩ := appendFile_ok opened
      · exact ⟨separate, rooted⟩
      · exact stored (stored_addFile [] reaches vacant)
  | openEmpty opened =>
      rcases openEmpty_ok opened with ⟨number, rfl⟩ | new
      · exact rewritten (rewrites_setContents disk number [])
      · exact stored new
  | write file octets => exact rewritten (rewrites_write disk file octets)
  | modify changed =>
      obtain ⟨number, octets, rfl⟩ := modify_ok changed
      exact rewritten (rewrites_setContents disk number octets)
  | rename renamed => exact ⟨separate.rename renamed, rooted.rename renamed⟩
  | removeFile removed =>
      have sheds := sheds_removeFile removed
      obtain ⟨inner, ⟨number, stands⟩, rfl⟩ := removeFile_ok removed
      constructor
      · exact separate.of_names (Nat.le_of_eq (congrArg List.length sheds.files.symm))
          fun _ _ => sheds.file_of_file
      · exact rooted.of_place inner (by simp [stands]) (rooted _ (by simp [stands]))
          fun _ other => lookup_unbind_other other
  | removeDirectory removed => exact pruned (prunes_removeDirectory removed)
  | removeTree path => exact pruned (prunes_removeTree disk path)

/-- However a disk has come about, each of its files has one name, and whatever stands anywhere stands
in a directory. -/
theorem Reachable.sound (reachable : disk.Reachable) : disk.Separate ∧ disk.Rooted := by
  induction reachable with
  | refl => exact ⟨.empty, .empty⟩
  | tail _ step ih => exact step.sound ih.1 ih.2

end Disk
end TileBindery
