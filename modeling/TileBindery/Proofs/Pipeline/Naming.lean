import TileBindery.Pipeline.Run
import TileBindery.Proofs.Disk.Paths

/-!
# Names of run directories

A name that a run gets for its directory can stand in a directory.  Six digits make such names: one
of any row of them is free that is longer than the names to avoid.
-/

namespace TileBindery
namespace Pipeline
namespace Naming

/-- Letters and digits behind the fixed beginning make a name. -/
theorem isName_directory [Naming] (avoid : List String) :
    Path.IsName (directoryName (ending avoid)) := by
  have long : 2 < (directoryName (ending avoid)).toList.length := by
    rw [directoryName, String.toList_append, List.length_append]
    exact Nat.lt_add_right _ (by decide)
  constructor
  · rw [directoryName, String.toList_append, List.mem_append, not_or]
    exact ⟨by decide, fun slash => absurd (alphanumeric avoid _ slash) (by decide)⟩
  all_goals
    intro short
    rw [short] at long
    exact absurd long (by decide)

/-- The names that numbers of six digits make. -/
def numberName (number : Nat) : String := directoryName (Path.numberText number)

theorem numberName_injective {a b : Nat} (same : numberName a = numberName b) : a = b :=
  Path.numberText_injective ((String.append_right_inj _).1 same)

/-- The first number whose name is not taken.  One more is tried than there are names taken. -/
def freshNumber (taken : List String) : Nat :=
  ((List.range (taken.length + 1)).find? fun number => !taken.contains (numberName number)).getD 0

/-- One of the names that are tried is free, as there are more of them than taken ones. -/
theorem numberName_freshNumber (taken : List String) : numberName (freshNumber taken) ∉ taken := by
  rw [freshNumber]
  cases found : (List.range (taken.length + 1)).find? fun number =>
      !taken.contains (numberName number) with
  | some number => simpa using List.find?_some found
  | none =>
      have all : (List.range (taken.length + 1)).map numberName ⊆ taken := by
        intro name member
        obtain ⟨number, tried, rfl⟩ := List.mem_map.1 member
        simpa using List.find?_eq_none.1 found number tried
      have distinct : ((List.range (taken.length + 1)).map numberName).Nodup :=
        List.Pairwise.map numberName
          (fun _ _ apart same => apart (numberName_injective same)) List.nodup_range
      have fits := distinct.length_le_of_subset all
      rw [List.length_map, List.length_range] at fits
      omega

/-- Directories get the first free number. -/
abbrev numbered : Naming where
  ending taken := Path.numberText (freshNumber taken)
  alphanumeric taken c member := by
    have digit : c.isDigit := Path.isDigit_of_mem_numberText member
    simp [Char.isAlphanum, digit]
  free := numberName_freshNumber

end Naming
end Pipeline
end TileBindery
