import TileBindery.Proofs.Pipeline.Preparation

/-!
# Options derived from settings

The options of the sorter depend on the size of the input, which is not known when settings are
checked.  The main statement says that settings that have been checked give options that sorter and
archive take, whatever the size is, and how the size of a chunk depends on it.
-/

namespace TileBindery

/-- A sorter whose options make sense is refused by the device only. -/
theorem Sorter.device_of_create {directory : String} {config : SpillConfig} {disk : Disk}
    {error : SortError} (valid : config.check = .ok ())
    (refused : (create directory config disk).1 = .error error) :
    ∃ reason, error = .device reason := by
  rw [create, valid] at refused
  dsimp only at refused
  split at refused
  next reason _ =>
    cases refused
    exact ⟨reason, rfl⟩
  next => cases refused

/-- An archive whose options make sense is refused by the device only. -/
theorem ArchiveWriter.device_of_ofPath {path : String} {config : ArchiveConfig} {disk : Disk}
    {error : ArchiveError} (valid : config.check = .ok ()) (some_shard : 0 < config.shards)
    (refused : (ofPath path config disk).1 = .error error) :
    ∃ reason, error = .device reason := by
  rw [ofPath, valid] at refused
  dsimp only at refused
  split at refused
  next reason _ _ =>
    cases refused
    exact ⟨reason, rfl⟩
  next =>
    rw [ofOutlets, ofShards, if_neg] at refused
    · cases refused
    · rw [List.isEmpty_iff, List.map_eq_nil_iff, List.range_eq_nil]
      exact Nat.ne_of_gt some_shard

namespace Settings

variable {settings : Settings}

theorem chunkBytes_of_pinned {pinned : Nat} (set : settings.sort.chunkBytes = some pinned)
    (size : Option Nat) : settings.chunkBytes size = pinned := by
  rw [chunkBytes, set]

theorem chunkBytesFor_mono {small large : Nat} (le : small ≤ large) :
    chunkBytesFor small ≤ chunkBytesFor large := by
  have eighths : small / 8 ≤ large / 8 := Nat.div_le_div_right le
  unfold chunkBytesFor
  omega

/-- Chunks whose size is not set lie between 16 MiB and 1 GiB. -/
theorem chunkBytes_bounds (unset : settings.sort.chunkBytes = none) (size : Option Nat) :
    16 * 2 ^ 20 ≤ settings.chunkBytes size ∧ settings.chunkBytes size ≤ 2 ^ 30 := by
  rw [chunkBytes, unset]
  cases size with
  | none => decide
  | some input =>
      change 16 * 2 ^ 20 ≤ chunkBytesFor input ∧ chunkBytesFor input ≤ 2 ^ 30
      unfold chunkBytesFor minChunkBytes maxChunkBytes
      omega

/-- Larger inputs never get smaller chunks. -/
theorem chunkBytes_mono {small large : Nat} (le : small ≤ large) :
    settings.chunkBytes (some small) ≤ settings.chunkBytes (some large) := by
  cases set : settings.sort.chunkBytes with
  | some pinned =>
      apply Nat.le_of_eq
      exact (chunkBytes_of_pinned set _).trans (chunkBytes_of_pinned set _).symm
  | none =>
      rw [chunkBytes, chunkBytes, set]
      exact chunkBytesFor_mono le

/-- Settings that have been checked give options that sorter and archive take, for an input of any
size or of none: only the device refuses to create them.  The size of a chunk is the one that is
set; if none is, it lies within bounds and grows with the input. -/
theorem options_of_checked (valid : settings.check = .ok ()) :
    (∀ size, (settings.spillConfig size).check = .ok () ∧
        ∀ directory disk error,
          (Sorter.create directory (settings.spillConfig size) disk).1 = .error error →
            ∃ reason, error = .device reason) ∧
      (∃ config, settings.archiveConfig = .ok config ∧ config.check = .ok () ∧
        ∀ path disk error, (ArchiveWriter.ofPath path config disk).1 = .error error →
          ∃ reason, error = .device reason) ∧
      (∀ size pinned, settings.sort.chunkBytes = some pinned →
        (settings.spillConfig size).chunkBytes = pinned) ∧
      (settings.sort.chunkBytes = none →
        (∀ size, 16 * 2 ^ 20 ≤ (settings.spillConfig size).chunkBytes ∧
          (settings.spillConfig size).chunkBytes ≤ 2 ^ 30) ∧
        ∀ small large, small ≤ large →
          (settings.spillConfig (some small)).chunkBytes ≤
            (settings.spillConfig (some large)).chunkBytes) := by
  refine ⟨?_, ?_, ?_, ?_⟩
  · intro size
    have checked := check_spillConfig valid size
    exact ⟨checked, fun directory disk error refused => Sorter.device_of_create checked refused⟩
  · obtain ⟨-, -, -, config, options⟩ := check_iff.1 valid
    obtain ⟨checked, some_shard⟩ := check_archiveConfig options
    refine ⟨config, options, checked, ?_⟩
    intro path disk error refused
    exact ArchiveWriter.device_of_ofPath checked some_shard refused
  · intro size pinned set
    exact chunkBytes_of_pinned set size
  · intro unset
    refine ⟨chunkBytes_bounds unset, ?_⟩
    intro small large le
    exact chunkBytes_mono le

/-- Settings with names in capitals and escapes in separators, for no input, an empty one and the
largest. -/
theorem options_of_checked_escaped :
    let settings : Settings :=
      { standard 4 with output := ⟨"TSV", 3, false, some "\\t|", some "\\r\\n", "Hex"⟩ }
    settings.check = .ok () ∧ settings.sort.chunkBytes = none ∧
      (settings.spillConfig none).check = .ok () ∧
      (settings.spillConfig (some (2 ^ 64 - 1))).check = .ok () ∧
      (∃ config, settings.archiveConfig = .ok config ∧ config.check = .ok ()) ∧
      (settings.spillConfig (some 0)).chunkBytes ≤
        (settings.spillConfig (some (2 ^ 64 - 1))).chunkBytes := by
  intro settings
  have valid : settings.check = .ok () := by decide
  obtain ⟨sorter, ⟨config, options, checked, -⟩, -, unset⟩ := options_of_checked valid
  refine ⟨valid, rfl, (sorter _).1, (sorter _).1, ⟨config, options, checked⟩, ?_⟩
  exact (unset rfl).2 0 _ (Nat.zero_le _)

end Settings
end TileBindery
