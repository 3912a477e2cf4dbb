import Mathlib.Data.List.Infix
import TileBindery.Proofs.Disk.Directories

/-!
# The way of a path

A path passes places on its way, one behind each of its parts.  It only leads on from places where a
directory stands, and creating the directories that it needs creates them at places that it passes.
-/

namespace TileBindery
namespace Path

/-- A path passes a place on its way, or leads there. -/
def Passes (path : Path) (place : Location) : Prop :=
  ∃ front, front <+: path.parts ∧ front.foldl goOn [] = place

theorem passes_location (path : Path) : path.Passes path.location := ⟨_, List.prefix_rfl, rfl⟩

theorem Passes.of_prefix {path other : Path} {place : Location} (passes : other.Passes place)
    (front : other.parts <+: path.parts) : path.Passes place := by
  obtain ⟨parts, within, same⟩ := passes
  exact ⟨parts, within.trans front, same⟩

/-- The places that a path passes. -/
def places (path : Path) : List Location := path.parts.inits.map (·.foldl goOn [])

/-- The way to a name in a directory is the way to the directory and one step more. -/
theorem passes_join {name : String} (isName : IsName name) {directory : String} {place : Location} :
    (ofText (join directory name)).Passes place ↔
      (ofText directory).Passes place ∨ place = (ofText directory).location ++ [name] := by
  have whole := passes_location (ofText (join directory name))
  rw [location_join isName] at whole
  constructor
  · rintro ⟨front, within, rfl⟩
    rw [parts_join isName, List.prefix_concat_iff] at within
    rcases within with rfl | within
    · right
      rw [← location_join isName, location, parts_join isName]
    · exact .inl ⟨front, within, rfl⟩
  · rintro (passes | rfl)
    · refine passes.of_prefix ?_
      rw [parts_join isName]
      exact List.prefix_append _ _
    · exact whole

end Path

namespace Disk

/-! ### Places that can be reached -/

/-- A directory stands at a place and at every place above it. -/
def Solid (disk : Disk) (location : Location) : Prop :=
  ∀ front, front <+: location → disk.lookup front = some .directory

variable {disk after : Disk} {start directory location : Location} {parts : List String}
  {last : PathEnd} {path : Path}

theorem solid_nil (disk : Disk) : disk.Solid [] := by
  intro front within
  rw [List.prefix_nil.1 within, lookup_nil]

theorem Solid.of_prefix {front : Location} (solid : disk.Solid location)
    (above : front <+: location) : disk.Solid front :=
  fun place within => solid place (within.trans above)

theorem Solid.dropLast (solid : disk.Solid location) : disk.Solid location.dropLast :=
  solid.of_prefix (List.dropLast_prefix location)

theorem Solid.concat {name : String} (solid : disk.Solid location)
    (stands : disk.lookup (location ++ [name]) = some .directory) :
    disk.Solid (location ++ [name]) := by
  intro front within
  rcases List.prefix_concat_iff.1 within with rfl | above
  · exact stands
  · exact solid front above

theorem Solid.enter {next : Location} {part : String} (solid : disk.Solid start)
    (entered : disk.enter start part = .ok next) : disk.Solid next := by
  rw [Disk.enter, look] at entered
  split at entered
  next =>
    cases entered
    exact solid
  next =>
    split at entered
    next =>
      cases entered
      exact solid.dropLast
    next =>
      split at entered
      · cases entered
      · cases entered
      · cases entered
      next found =>
        cases entered
        split at found
        · cases found
        · exact solid.concat (Except.ok.inj found)

/-- Every place in front of the last part of a path that can be followed has a directory, down from
the root. -/
theorem Solid.walk (solid : disk.Solid start)
    (walked : disk.walk start parts = .ok (directory, last)) :
    disk.Solid directory ∧
      ∀ front, front <+: parts → front ≠ parts → disk.Solid (front.foldl Path.goOn start) := by
  induction parts generalizing start with
  | nil =>
      cases walked
      exact ⟨solid, fun front within proper => absurd (List.prefix_nil.1 within) proper⟩
  | cons part rest ih =>
      cases rest with
      | nil =>
          cases walked
          refine ⟨solid, fun front within proper => ?_⟩
          rcases List.prefix_cons_iff.1 within with rfl | ⟨inner, rfl, nothing⟩
          · exact solid
          · rw [List.prefix_nil.1 nothing] at proper
            exact absurd rfl proper
      | cons next more =>
          rw [Disk.walk] at walked
          · cases entered : disk.enter start part with
            | error error => simp [entered] at walked
            | ok behind =>
                rw [entered] at walked
                obtain ⟨reached, way⟩ := ih (solid.enter entered) walked
                refine ⟨reached, fun front within proper => ?_⟩
                rcases List.prefix_cons_iff.1 within with rfl | ⟨inner, rfl, further⟩
                · exact solid
                · rw [List.foldl_cons, ← eq_goOn_of_enter entered]
                  exact way inner further fun same => proper (congrArg (part :: ·) same)
          · simp

theorem solid_of_approach (approached : disk.approach path = .ok (directory, last)) :
    disk.Solid directory :=
  ((solid_nil disk).walk (walk_of_approach approached)).1

theorem lookup_bind_other {other : Location} {entry : DiskEntry} (apart : other ≠ location) :
    (disk.bind location entry).lookup other = disk.lookup other := by
  by_cases root : other = []
  · rw [root, lookup_nil, lookup_nil]
  · rw [lookup_bind root, if_neg apart]

/-- A directory is created for a name that is not too long, behind a way that leads on. -/
theorem approach_of_makeDirectory (made : disk.makeDirectory path = .ok after) :
    ∃ directory name, disk.approach path = .ok (directory, .name name) ∧
      name.utf8ByteSize ≤ maxName := by
  rw [makeDirectory] at made
  split at made
  · cases made
  next directory name approached =>
    refine ⟨directory, name, approached, ?_⟩
    rw [look] at made
    by_cases long : maxName < name.utf8ByteSize
    · simp [long] at made
    · exact Nat.not_lt.1 long
  · cases made

end Disk
end TileBindery
