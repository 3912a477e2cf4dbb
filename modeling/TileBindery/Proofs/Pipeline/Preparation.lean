import TileBindery.Proofs.Disk.Directories
import TileBindery.Proofs.Pipeline.Emission
import TileBindery.Proofs.Pipeline.Naming

/-!
# How a run begins

With settings that make sense, a run can only fail on a device before its stages begin: its options
are settled, nothing is cleared where nothing stands, and it gets a directory that no shard goes
into, with an empty sorter and an empty node table in it.
-/

namespace TileBindery

/-- A file or a directory refuses an operation. -/
def PipelineError.IsDevice : PipelineError → Prop
  | .settings (.noInput _ _) => True
  | .device _ => True
  | .sort (.device _) => True
  | .archive (.device _) => True
  | .nodes (.device _) => True
  | _ => False

/-! ### Settings -/

namespace Settings

theorem except_bind_ok {ε α β : Type} {x : Except ε α} {f : α → Except ε β} {b : β}
    (done : (x >>= f) = .ok b) : ∃ a, x = .ok a ∧ f a = .ok b := by
  cases x with
  | error error => cases done
  | ok a => exact ⟨a, rfl, done⟩

theorem eq_ok_of_mapError {ε ζ α : Type} {x : Except ε α} {f : ε → ζ} {a : α}
    (done : x.mapError f = .ok a) : x = .ok a := by
  cases x with
  | error error => cases done
  | ok value =>
      cases done
      rfl

/-- Settings make sense if they give threads and tiles of a batch, the options of a sorter for an
input of unknown size, and those of an archive. -/
theorem check_iff {settings : Settings} :
    settings.check = .ok () ↔
      settings.threads ≠ 0 ∧ settings.batchSize ≠ 0 ∧
        (settings.spillConfig none).check = .ok () ∧
        ∃ config, settings.archiveConfig = .ok config := by
  by_cases threads : settings.threads = 0
  · simp [check, threads, bind, Except.bind, throw, throwThe, MonadExceptOf.throw]
  by_cases batch : settings.batchSize = 0
  · simp [check, threads, batch, bind, Except.bind, throw, throwThe, MonadExceptOf.throw]
  simp only [check, if_neg threads, if_neg batch]
  constructor
  · intro valid
    obtain ⟨_, checked, behind⟩ := except_bind_ok valid
    obtain ⟨config, options, _⟩ := except_bind_ok behind
    exact ⟨threads, batch, eq_ok_of_mapError checked, config, options⟩
  · rintro ⟨-, -, checked, config, options⟩
    rw [checked, options]
    rfl

/-- Settings that make sense settle the options of the sorter for an input of any size. -/
theorem check_spillConfig {settings : Settings} (valid : settings.check = .ok ())
    (size : Option Nat) : (settings.spillConfig size).check = .ok () := by
  obtain ⟨-, -, standard, -⟩ := check_iff.1 valid
  have bytes : (settings.spillConfig none).chunkBytes ≠ 0 := by
    intro zero
    rw [SpillConfig.check, if_pos zero] at standard
    cases standard
  have sized : (settings.spillConfig size).chunkBytes ≠ 0 := by
    change settings.chunkBytes none ≠ 0 at bytes
    change settings.chunkBytes size ≠ 0
    unfold chunkBytes at bytes ⊢
    split
    next pinned found => simpa only [found] using bytes
    next =>
      cases size with
      | none => decide
      | some input =>
          change max minChunkBytes (min (input / 8) maxChunkBytes) ≠ 0
          rw [minChunkBytes]
          omega
  rw [SpillConfig.check, if_neg bytes] at standard
  rw [SpillConfig.check, if_neg sized]
  exact standard

/-- Batches of settings that make sense have a tile. -/
theorem batchSize_pos {settings : Settings} (valid : settings.check = .ok ()) :
    0 < settings.batchSize := Nat.pos_of_ne_zero (check_iff.1 valid).2.1

/-- Settings give the options of an archive that are read and make sense. -/
theorem archiveConfig_eq_ok_iff {settings : Settings} {config : ArchiveConfig} :
    settings.archiveConfig = .ok config ↔
      archiveOptions settings.output = .ok config ∧ config.check = .ok () := by
  constructor
  · intro options
    obtain ⟨_, read, behind⟩ := except_bind_ok (eq_ok_of_mapError options)
    obtain ⟨_, checked, same⟩ := except_bind_ok behind
    cases same
    exact ⟨read, checked⟩
  · rintro ⟨read, checked⟩
    simp only [archiveConfig, bind, Except.bind, read, checked]
    rfl

/-- Options of an archive that make sense have a shard. -/
theorem check_archiveConfig {settings : Settings} {config : ArchiveConfig}
    (options : settings.archiveConfig = .ok config) :
    config.check = .ok () ∧ 0 < config.shards := by
  obtain ⟨-, checked⟩ := archiveConfig_eq_ok_iff.1 options
  refine ⟨checked, Nat.pos_of_ne_zero ?_⟩
  intro none
  rw [ArchiveConfig.check, if_pos none] at checked
  cases checked

theorem chunkBytes_lt {settings : Settings}
    (bytes : ∀ pinned ∈ settings.sort.chunkBytes, pinned < 2 ^ 64) (size : Option Nat) :
    (settings.spillConfig size).chunkBytes < 2 ^ 64 := by
  change settings.chunkBytes size < 2 ^ 64
  rw [chunkBytes]
  split
  next pinned found => exact bytes pinned found
  next =>
    cases size with
    | none => decide
    | some input =>
        change max minChunkBytes (min (input / 8) maxChunkBytes) < 2 ^ 64
        rw [minChunkBytes, maxChunkBytes]
        omega

end Settings

namespace Pipeline

variable {σ : Type}

theorem found_of_essentials {pipeline : Pipeline σ} {profile : Profile σ} {output : String}
    {found : Profile σ × String} (profiled : pipeline.profile = some profile)
    (aimed : pipeline.output = some output) (essentials : pipeline.essentials = .ok found) :
    found = (profile, output) := by
  rw [Pipeline.essentials, profiled, aimed] at essentials
  dsimp only at essentials
  split at essentials
  · cases essentials
  · split at essentials
    · cases essentials
    · cases essentials
      rfl

theorem check_of_plan {pipeline : Pipeline σ} {disk : Disk} {plan : RunPlan}
    (planned : pipeline.plan disk = .ok plan) : pipeline.settings.check = .ok () := by
  obtain ⟨_, checked, -⟩ := Settings.except_bind_ok planned
  exact checked

/-- With settings that make sense, only the input can stand in the way of a plan. -/
theorem plan_of_check {pipeline : Pipeline σ} {config : ArchiveConfig} (disk : Disk)
    (valid : pipeline.settings.check = .ok ())
    (options : pipeline.settings.archiveConfig = .ok config) :
    (∃ path reason, pipeline.plan disk = .error (.noInput path reason)) ∨
      ∃ size, pipeline.plan disk = .ok ⟨pipeline.settings.spillConfig size, config⟩ := by
  rw [plan]
  rw [valid, options]
  cases sized : pipeline.inputSize disk with
  | ok size => exact .inr ⟨size, rfl⟩
  | error error =>
      left
      rw [inputSize] at sized
      split at sized
      next => cases sized
      next path _ =>
        split at sized
        next reason _ =>
          cases sized
          exact ⟨path, reason, rfl⟩
        next => cases sized
        next => cases sized

/-- Nothing is cleared where nothing stands. -/
theorem clear_of_free {force : Bool} {paths : List String} {disk : Disk}
    (free : ∀ path ∈ paths, disk.holds (Path.ofText path) = false) :
    clear force paths disk = (.ok (), disk) := by
  induction paths with
  | nil => rfl
  | cons path rest ih =>
      have vacant : ∃ reason, disk.stat (Path.ofText path) = .error reason := by
        have nothing := free path List.mem_cons_self
        rw [Disk.holds] at nothing
        rw [Disk.stat]
        cases found : disk.find (Path.ofText path) with
        | error reason => exact ⟨reason, rfl⟩
        | ok place => simp [found, Except.isOk, Except.toBool] at nothing
      obtain ⟨reason, refused⟩ := vacant
      rw [clear, refused]
      exact ih fun other member => free other (List.mem_cons_of_mem _ member)

theorem grows_createDirectory [Naming] (workspace : String) (avoid : List String) (disk : Disk) :
    disk.Grows (createDirectory workspace avoid disk).2 := by
  rw [createDirectory]
  have grown := Disk.grows_makeDirectories disk (Path.ofText workspace)
  generalize disk.makeDirectories (Path.ofText workspace) = parents at grown
  obtain ⟨error | _, middle⟩ := parents
  · exact grown
  · dsimp only at grown ⊢
    split
    next => exact grown
    next made => exact grown.trans (Disk.grows_makeDirectory made)

/-- A run gets a directory that no shard's path leads into, unless the device refuses. -/
theorem createDirectory_spec [Naming] (workspace output : String) (archive : ArchiveConfig)
    (disk : Disk) :
    (∃ reason, (createDirectory workspace (outputParts output archive) disk).1 =
        .error (.device reason)) ∨
      ∃ directory made,
        createDirectory workspace (outputParts output archive) disk = (.ok directory, made) ∧
        disk.Grows made ∧ RunSite.Apart ⟨directory, output, archive⟩ := by
  rw [createDirectory]
  have grown := Disk.grows_makeDirectories disk (Path.ofText workspace)
  cases parents : disk.makeDirectories (Path.ofText workspace) with
  | mk result middle =>
      rw [parents] at grown
      cases result with
      | error reason => exact .inl ⟨reason, rfl⟩
      | ok =>
          dsimp only
          let avoid := ((middle.names (Path.ofText workspace)).toOption.getD []) ++
            outputParts output archive
          cases made : middle.makeDirectory
              (Path.ofText (Path.join workspace (directoryName (Naming.ending avoid)))) with
          | error reason => exact .inl ⟨reason, rfl⟩
          | ok last =>
              refine .inr ⟨_, last, rfl, grown.trans (Disk.grows_makeDirectory made), ?_⟩
              intro index below
              refine ⟨directoryName (Naming.ending avoid), ?_, fun member => Naming.free avoid ?_⟩
              · rw [Path.location_join (Naming.isName_directory avoid)]
                exact List.mem_append_right _ List.mem_cons_self
              · exact List.mem_append_right _
                  (List.mem_flatMap.2 ⟨index, List.mem_range.2 below, member⟩)

/-- The stages of a run begin with nothing emitted, unless the device refuses. -/
theorem begin_spec [Codec] {spill : SpillConfig} (site : RunSite) (disk : Disk) (own : σ)
    (valid : spill.check = .ok ()) (bytes : spill.chunkBytes < 2 ^ 64) (apart : site.Apart)
    (vacant : site.Vacant disk) :
    (∃ error, (begin spill site.directory disk own).1 = .error error ∧ error.IsDevice) ∨
      ∃ state behind, begin spill site.directory disk own = (.ok state, behind) ∧
        state.Ready site [] := by
  rw [begin, NodeTable.create]
  cases created : disk.createFile (Path.ofText (Path.join site.directory "node.db")) with
  | error reason => exact .inl ⟨_, rfl, trivial⟩
  | ok opened =>
      obtain ⟨file, middle⟩ := opened
      obtain ⟨reaches, free, rfl, rfl⟩ := Disk.createFile_iff.1 created
      have stored := Disk.stored_addFile [] reaches free
      dsimp only
      generalize disk.addFile (Path.ofText (Path.join site.directory "node.db")).location [] =
        middle at stored ⊢
      have grown := Disk.grows_makeDirectories middle (Path.ofText site.chunks)
      rw [Sorter.create, valid]
      dsimp only
      rw [RunSite.chunks] at grown
      cases made : middle.makeDirectories (Path.ofText (Path.join site.directory "feature.db")) with
      | mk result last =>
          rw [made] at grown
          cases result with
          | error reason => exact .inl ⟨_, rfl, trivial⟩
          | ok =>
              refine .inr ⟨_, last, rfl, bytes, Sorter.holds_fresh last valid, rfl, rfl, ?_, ?_⟩
              · rintro _ _ ⟨⟩
                have ends : last.Ends ⟨disk.files.length, some 0⟩ [] := by
                  refine ⟨?_, ?_, by simp⟩
                  · rw [grown.files, stored.files]
                    exact Nat.lt_succ_self _
                  · rw [← stored.contents_new, Disk.contents, Disk.contents, grown.files]
                refine ⟨⟨[], ⟨[], ends, rfl⟩⟩, ?_, by simp [Sorter.fresh]⟩
                exact (grown.file_iff _ _).2 stored.stands
              · have inside := site.inside_nodes
                have before := vacant.of_stored apart inside stored
                exact before.of_lookup fun location number => (grown.file_iff location number).1

/-- What a run begins with stands in no shard's way. -/
theorem vacant_begin {site : RunSite} {disk : Disk} (spill : SpillConfig) (own : σ)
    (apart : site.Apart) (vacant : ArchiveWriter.Vacant site.output disk 0 site.archive.shards) :
    ArchiveWriter.Vacant site.output (begin spill site.directory disk own).2 0
      site.archive.shards := by
  rw [begin, NodeTable.create]
  cases created : disk.createFile (Path.ofText (Path.join site.directory "node.db")) with
  | error reason => exact vacant
  | ok opened =>
      obtain ⟨file, middle⟩ := opened
      obtain ⟨reaches, free, -, rfl⟩ := Disk.createFile_iff.1 created
      have stored := Disk.stored_addFile [] reaches free
      have before := RunSite.vacant_of_stored apart site.inside_nodes vacant stored
      dsimp only
      generalize disk.addFile _ [] = middle at before
      have grown := Disk.grows_makeDirectories middle (Path.ofText site.chunks)
      rw [Sorter.create]
      rw [RunSite.chunks] at grown
      cases spill.check with
      | error error => exact before
      | ok =>
          dsimp only
          generalize middle.makeDirectories _ = outcome at grown
          have still := before.of_lookup fun location number => (grown.file_iff location number).1
          obtain ⟨_ | _, last⟩ := outcome <;> exact still

end Pipeline
end TileBindery
