import TileBindery.Proofs.Disk.Separate
import TileBindery.Proofs.Pipeline.Clearing
import TileBindery.Proofs.Pipeline.Context

/-!
# What a run leaves behind

However a run ends, its directory is gone with all that was in it.  What else it leaves are the
directories on the way to its workspace, and, once it has opened its archive, the files of the shards
and the directories above them.
-/

namespace TileBindery

namespace ArchiveWriter

variable {disk : Disk} {base : String} {config : ArchiveConfig}

end ArchiveWriter

namespace Pipeline

variable {σ : Type} {site : RunSite} {workspace : String} {opened : Prop} {disk made : Disk}

/-! ### The directory of a run -/

/-- A directory for a run has been created, on a disk `made`, where nothing stood. -/
structure Housed (workspace directory : String) (disk middle made : Disk) : Prop where
  /-- It has a name in the workspace. -/
  named : ∃ name, Path.IsName name ∧ directory = Path.join workspace name
  /-- Nothing but directories has come before. -/
  grows : disk.Grows middle
  /-- They stand on the way to the workspace. -/
  way : ∀ place, middle.lookup place ≠ disk.lookup place → (Path.ofText workspace).Passes place
  /-- That way leads on. -/
  approached : ∃ above name, middle.approach (Path.ofText directory) = .ok (above, .name name) ∧
    name.utf8ByteSize ≤ Disk.maxName
  /-- Nothing stood in the place of the directory. -/
  vacant : middle.lookup (Path.ofText directory).location = none
  /-- Now it stands there. -/
  made : made = middle.bind (Path.ofText directory).location .directory

namespace Housed

variable {middle : Disk}

/-- In the beginning there is nothing in the place of the directory and below it. -/
theorem vacant_start (housed : Housed workspace site.directory disk middle made)
    (rooted : disk.Rooted) {place : Location} (inside : site.Inside place) :
    disk.lookup place = none := by
  have free : disk.lookup (Path.ofText site.directory).location = none := by
    rcases housed.grows.entries (Path.ofText site.directory).location with same | ⟨free, -⟩
    · exact same.symm.trans housed.vacant
    · exact free
  by_cases own : place = (Path.ofText site.directory).location
  · rw [own, free]
  · refine Classical.byContradiction fun stands => ?_
    rw [rooted.directory_above inside own stands] at free
    cases free

theorem lookup_made (housed : Housed workspace site.directory disk middle made)
    {place : Location} (outside : ¬site.Inside place) :
    made.lookup place = middle.lookup place := by
  rw [housed.made]
  exact Disk.lookup_bind_other fun own => outside (own ▸ List.prefix_rfl)

theorem files (housed : Housed workspace site.directory disk middle made) :
    made.files = disk.files := by
  rw [housed.made]
  exact housed.grows.files

theorem stands (housed : Housed workspace site.directory disk middle made) :
    made.lookup (Path.ofText site.directory).location = some .directory := by
  obtain ⟨name, isName, shape⟩ := housed.named
  have inner : (Path.ofText site.directory).location ≠ [] := by
    rw [shape, Path.location_join isName]
    exact List.append_ne_nil_of_right_ne_nil _ (List.cons_ne_nil _ _)
  rw [housed.made, Disk.lookup_bind inner, if_pos rfl]

/-- Directories that stood in the beginning still stand, and not in the place of the directory. -/
theorem keeps (housed : Housed workspace site.directory disk middle made) (rooted : disk.Rooted)
    {place : Location} (standing : disk.lookup place = some .directory) :
    ¬site.Inside place ∧ made.lookup place = some .directory := by
  have outside : ¬site.Inside place := by
    intro inside
    rw [housed.vacant_start rooted inside] at standing
    cases standing
  refine ⟨outside, ?_⟩
  rw [housed.lookup_made outside]
  rcases housed.grows.entries place with same | ⟨free, -⟩
  · exact same.trans standing
  · rw [free] at standing
    cases standing

/-- The way to the directory goes through the workspace. -/
theorem passes (housed : Housed workspace site.directory disk middle made) {place : Location}
    (passes : (Path.ofText site.directory).Passes place) :
    (Path.ofText workspace).Passes place ∨ site.Inside place := by
  obtain ⟨name, isName, shape⟩ := housed.named
  rw [shape, Path.passes_join isName] at passes
  have place_eq := Path.location_join isName workspace
  rw [← shape] at place_eq
  refine passes.imp_right fun own => ?_
  obtain rfl := own.trans place_eq.symm
  exact List.prefix_rfl

end Housed

/-! ### Within the directory -/

section Working

variable {state : BuildState σ} {merges : List Merge}

end Working

/-! ### Whole runs -/

variable {pipeline : Pipeline σ} {profile : Profile σ} {output : String} {own : σ}

variable [Codec] [Naming]

/-- A run gets as far as opening its archive. -/
def Opens (pipeline : Pipeline σ) (profile : Profile σ) (output : String) (disk : Disk) (own : σ) :
    Prop :=
  ∃ site state tally last cleared merge sorter behind,
    pipeline.Begins output disk own site state ∧
      Stage.runAll pipeline.settings profile pipeline.stages state = (.ok tally, last) ∧
      last.nodes.delete last.disk = (.ok (), cleared) ∧
      last.sorter.sort cleared = (.ok merge, sorter, behind)

end Pipeline
end TileBindery
