import TileBindery.Proofs.Pipeline.Archiving
import TileBindery.Proofs.Spill.FrameRoundTrip

/-!
# What a run writes

The main statement about a whole run: unless a device refuses, it succeeds exactly if every feature
that its stages emit belongs to a tile that can be rendered, and then every shard holds a header, the
shard's tiles in ascending order, each rendered from all of its features in order, and a footer.
When and where features are spilled, and how tiles are batched, does not show.
-/

namespace TileBindery

open Grouping TileWriting

namespace Pipeline

variable {σ : Type}

/-- The stages of a run begin at a site in a state. -/
def Begins [Naming] (pipeline : Pipeline σ) (output : String) (disk : Disk) (own : σ)
    (site : RunSite) (state : BuildState σ) : Prop :=
  site.output = output ∧ ∃ plan cleared made behind,
    pipeline.plan disk = .ok plan ∧ site.archive = plan.archive ∧
      pipeline.clearOutput output plan.archive disk = (.ok (), cleared) ∧
      createDirectory pipeline.settings.workspace (outputParts output plan.archive) cleared =
        (.ok site.directory, made) ∧
      begin plan.spill site.directory made own = (.ok state, behind)

/-- The stages of a run, wherever they begin, emit features and none of them fails. -/
def Emits [Codec] [Naming] (pipeline : Pipeline σ) (profile : Profile σ) (output : String)
    (disk : Disk) (own : σ) (features : List Feature) : Prop :=
  ∀ site state, pipeline.Begins output disk own site state →
    ∃ last, Stage.Emit site pipeline.settings profile pipeline.stages state features last

variable {pipeline : Pipeline σ} {profile : Profile σ} {output : String} {features : List Feature}

/-- Stages begin with a sorter that has the settings of the plan. -/
theorem Begins.config [Naming] {plan : RunPlan} {disk : Disk} {own : σ} {site : RunSite}
    {state : BuildState σ} (begins : pipeline.Begins output disk own site state)
    (planned : pipeline.plan disk = .ok plan) : state.sorter.config = plan.spill := by
  obtain ⟨-, other, _, _, _, same, -, -, -, begun⟩ := begins
  cases planned.symm.trans same
  rw [begin] at begun
  split at begun
  · cases begun
  · split at begun
    · cases begun
    next created =>
      cases begun
      rw [(Sorter.eq_fresh_of_create created).2, Sorter.fresh]

/-- Where no path of a shard leads to anything, there is nothing to clear. -/
theorem clearOutput_of_free (pipeline : Pipeline σ) {config : ArchiveConfig} {disk : Disk}
    (free : ∀ index < config.shards,
      disk.holds (Path.ofText (Routing.shardPath output index)) = false) :
    pipeline.clearOutput output config disk = (.ok (), disk) := by
  rw [clearOutput]
  split
  next => rfl
  next =>
    refine clear_of_free fun path member => ?_
    obtain ⟨index, below, rfl⟩ := List.mem_map.1 member
    exact free index (List.mem_range.1 below)

/-- Whatever a run behind all checks may end with, it holds if it holds when a device refuses, when a
stage fails and once what the stages leave has been archived, and also when the run's directory is
gone. -/
theorem execute_ends [Codec] [Naming] {plan : RunPlan} {disk cleared : Disk} {own : σ}
    {P : Except PipelineError RunSummary → Disk → Prop}
    (planned : pipeline.plan disk = .ok plan) (spill_valid : plan.spill.check = .ok ())
    (bytes : plan.spill.chunkBytes < 2 ^ 64)
    (room : pipeline.clearOutput output plan.archive disk = (.ok (), cleared))
    (vacant : plan.archive.append = true →
      ArchiveWriter.Vacant output cleared 0 plan.archive.shards)
    (device : ∀ error last, error.IsDevice →
      (ArchiveWriter.Vacant output cleared 0 plan.archive.shards →
        ArchiveWriter.Vacant output last 0 plan.archive.shards) → P (.error error) last)
    (stopped : ∀ directory (state last : BuildState σ) error,
      pipeline.Begins output disk own ⟨directory, output, plan.archive⟩ state →
      Stage.runAll pipeline.settings profile pipeline.stages state = (.error error, last) →
      P (.error error) last.disk)
    (archived : ∀ directory (state last : BuildState σ) tally,
      RunSite.Apart ⟨directory, output, plan.archive⟩ →
      state.Ready ⟨directory, output, plan.archive⟩ [] →
      pipeline.Begins output disk own ⟨directory, output, plan.archive⟩ state →
      Stage.runAll pipeline.settings profile pipeline.stages state = (.ok tally, last) →
      P (archive pipeline.settings profile output plan.archive tally last).1
        (archive pipeline.settings profile output plan.archive tally last).2.1)
    (removed : ∀ directory result disk, RunSite.Apart ⟨directory, output, plan.archive⟩ →
      P result disk → P result (disk.removeTree (Path.ofText directory)).2) :
    P (pipeline.execute profile output plan disk own).1
      (pipeline.execute profile output plan disk own).2.1 := by
  rw [execute, room]
  dsimp only
  have made_grown := grows_createDirectory pipeline.settings.workspace
    (outputParts output plan.archive) cleared
  rcases createDirectory_spec pipeline.settings.workspace output plan.archive cleared with
    ⟨reason, refused⟩ | ⟨directory, made, created, grown, apart⟩
  · generalize createDirectory _ _ cleared = outcome at refused made_grown ⊢
    obtain ⟨result, behind⟩ := outcome
    cases refused
    exact device _ behind trivial fun free =>
      free.of_lookup fun location number => (made_grown.file_iff location number).1
  · rw [created]
    dsimp only
    apply removed directory _ _ apart
    have still_vacant : RunSite.Vacant ⟨directory, output, plan.archive⟩ made :=
      RunSite.Vacant.of_lookup vacant fun location number => (grown.file_iff location number).1
    have vacant_behind (free : ArchiveWriter.Vacant output cleared 0 plan.archive.shards) :=
      vacant_begin plan.spill own apart
        (free.of_lookup fun location number => (grown.file_iff location number).1)
    rw [runIn]
    rcases begin_spec ⟨directory, output, plan.archive⟩ made own spill_valid bytes apart
      still_vacant with ⟨error, refused, is_device⟩ | ⟨state, behind, begun, ready⟩
    · dsimp only at refused vacant_behind
      generalize begin plan.spill directory made own = outcome at refused vacant_behind ⊢
      obtain ⟨result, behind⟩ := outcome
      cases refused
      exact device error behind is_device vacant_behind
    · dsimp only at begun
      have begins : pipeline.Begins output disk own ⟨directory, output, plan.archive⟩ state :=
        ⟨rfl, plan, cleared, made, behind, planned, rfl, room, created, begun⟩
      rw [begun]
      dsimp only
      cases ran : Stage.runAll pipeline.settings profile pipeline.stages state with
      | mk result last =>
          cases result with
          | error error => exact stopped directory state last error begins ran
          | ok tally => exact archived directory state last tally apart ready begins ran

/-- Behind all checks, too, only a device or a tile can stand in the way of a run. -/
theorem ended_execute [Codec] [Naming] {plan : RunPlan} {disk : Disk} {own : σ}
    (lossless : plan.spill.compress = true → Codec.Lossless)
    (planned : pipeline.plan disk = .ok plan) (spill_valid : plan.spill.check = .ok ())
    (bytes : plan.spill.chunkBytes < 2 ^ 64) (valid : plan.archive.check = .ok ())
    (some_shard : 0 < plan.archive.shards)
    (free : ∀ index < plan.archive.shards,
      disk.holds (Path.ofText (Routing.shardPath output index)) = false)
    (vacant : plan.archive.append = true →
      ArchiveWriter.Vacant output disk 0 plan.archive.shards)
    (emits : pipeline.Emits profile output disk own features) :
    Ended pipeline.settings profile output plan.archive features
      (pipeline.execute profile output plan disk own).1
      (pipeline.execute profile output plan disk own).2.1 := by
  refine execute_ends planned spill_valid bytes (clearOutput_of_free pipeline free) vacant
    (fun error last is_device _ => .device rfl is_device) ?_ ?_
    fun directory result disk apart ended => ended.removeTree apart
  · intro directory state last error begins failed
    obtain ⟨_, emit⟩ := emits _ state begins
    obtain ⟨⟨_, finished⟩, -⟩ := emit.runAll
    cases failed.symm.trans finished
  · intro directory state last tally apart ready begins ran
    obtain ⟨_, emit⟩ := emits _ state begins
    obtain ⟨⟨_, finished⟩, emitted⟩ := emit.runAll
    cases ran.symm.trans finished
    have filled : last.Ready ⟨directory, output, plan.archive⟩ ([] ++ features) :=
      emitted.ready apart ready
    have config := emitted.config.trans (begins.config planned)
    exact ended_archive pipeline.settings profile tally valid some_shard (config ▸ lossless) filled

/-- Unless a device refuses, a run writes all tiles of the features that its stages emit, each from
all of its features in order, exactly if each of these tiles can be made.  Nothing may be lost by
packing chunks, if the settings ask for it, and an archive that is appended must not meet a file even
once the directories in front of it are made. -/
theorem run_writes_emitted_tiles [Codec] [Naming] {config : ArchiveConfig} {disk : Disk} {own : σ}
    (lossless : pipeline.settings.sort.compress = true → Codec.Lossless)
    (first : pipeline.ran = false) (profiled : pipeline.profile = some profile)
    (aimed : pipeline.output = some output) (staged : pipeline.stages ≠ [])
    (valid : pipeline.settings.check = .ok ())
    (options : pipeline.settings.archiveConfig = .ok config)
    (bytes : ∀ pinned ∈ pipeline.settings.sort.chunkBytes, pinned < 2 ^ 64)
    (free : ∀ index < config.shards,
      disk.holds (Path.ofText (Routing.shardPath output index)) = false)
    (vacant : config.append = true → ∀ index < config.shards, ∀ number,
      disk.lookup (Path.ofText (Routing.shardPath output index)).location ≠ some (.file number))
    (emits : pipeline.Emits profile output disk own features)
    (undisturbed : ∀ error, (pipeline.run disk own).1 = .error error → ¬error.IsDevice) :
    ((∃ summary, (pipeline.run disk own).1 = .ok summary) ↔
        ∀ feature ∈ features, ∃ rendered, profile.Makes features feature.tileId rendered) ∧
      ∀ summary, (pipeline.run disk own).1 = .ok summary →
        ∃ tiles, List.Forall₂ (profile.Makes features) (tileIds features) tiles ∧
          Complete pipeline.settings profile output config features tiles summary
            (pipeline.run disk own).2.2.1 := by
  obtain ⟨archive_valid, some_shard⟩ := Settings.check_archiveConfig options
  have essentials : pipeline.essentials = .ok (profile, output) := by
    simp [Pipeline.essentials, first, profiled, aimed, staged]
  have ended : Ended pipeline.settings profile output config features (pipeline.run disk own).1
      (pipeline.run disk own).2.2.1 := by
    rw [run, essentials]
    dsimp only
    rcases plan_of_check disk valid options with ⟨path, reason, refused⟩ | ⟨size, planned⟩
    · rw [refused]
      exact .device rfl trivial
    · have executed := ended_execute lossless planned
        (Settings.check_spillConfig valid size) (Settings.chunkBytes_lt bytes size) archive_valid
        some_shard free (fun append index _ below => vacant append index (by simpa using below))
        emits
      rw [planned]
      exact executed
  rw [← exists_makes_iff]
  cases ended with
  | device failed device => exact absurd device (undisturbed _ failed)
  | unmade unmade failed =>
      obtain ⟨error, failed⟩ := failed
      simp [failed, unmade]
  | complete makes ok complete =>
      refine ⟨⟨fun _ => ⟨_, makes⟩, fun _ => ⟨_, ok⟩⟩, fun other same => ?_⟩
      cases ok.symm.trans same
      exact ⟨_, makes, complete⟩

/-! ### Runs whose parts are known -/

section

variable {plan : RunPlan} {disk cleared made behind : Disk} {own : σ} {directory : String}
  {state : BuildState σ}

/-- Where the stages of a run begin is told by what comes before them. -/
theorem eq_of_begins [Naming] {site : RunSite} {other : BuildState σ}
    (planned : pipeline.plan disk = .ok plan)
    (room : pipeline.clearOutput output plan.archive disk = (.ok (), cleared))
    (created : createDirectory pipeline.settings.workspace (outputParts output plan.archive) cleared =
      (.ok directory, made))
    (begun : begin plan.spill directory made own = (.ok state, behind))
    (begins : pipeline.Begins output disk own site other) :
    site = ⟨directory, output, plan.archive⟩ ∧ other = state := by
  obtain ⟨place, _, archive⟩ := site
  obtain ⟨rfl, _, _, _, _, planned_too, rfl, room_too, created_too, begun_too⟩ := begins
  cases planned.symm.trans planned_too
  cases room.symm.trans room_too
  cases created.symm.trans created_too
  cases begun.symm.trans begun_too
  exact ⟨rfl, rfl⟩

/-- A run that gets as far as its archive ends as this does, without its directory. -/
theorem run_of_archive [Codec] [Naming] {last : BuildState σ} {tally : StageTally} {left : Disk}
    {kept : σ} {result : Except PipelineError RunSummary}
    (essentials : pipeline.essentials = .ok (profile, output))
    (planned : pipeline.plan disk = .ok plan)
    (room : pipeline.clearOutput output plan.archive disk = (.ok (), cleared))
    (created : createDirectory pipeline.settings.workspace (outputParts output plan.archive) cleared =
      (.ok directory, made))
    (begun : begin plan.spill directory made own = (.ok state, behind))
    (ran : Stage.runAll pipeline.settings profile pipeline.stages state = (.ok tally, last))
    (archived : archive pipeline.settings profile output plan.archive tally last =
      (result, left, kept)) :
    pipeline.run disk own = (result, { pipeline with ran := true },
      (left.removeTree (Path.ofText directory)).2, kept) := by
  have inside : pipeline.runIn profile output plan directory made own = (result, left, kept) := by
    rw [runIn, begun]
    dsimp only
    rw [ran]
    exact archived
  have executed : pipeline.execute profile output plan disk own =
      (result, (left.removeTree (Path.ofText directory)).2, kept) := by
    rw [execute, room]
    dsimp only
    rw [created]
    dsimp only
    rw [inside]
  rw [run, essentials]
  dsimp only
  rw [planned]
  dsimp only
  rw [executed]

end

/-! ### A build that appends to a file -/

section

attribute [local instance] Frame.codec Naming.numbered

/-- A profile whose tiles hold the payloads of their features. -/
def payloads : Profile Unit :=
  Profile.ofRenderer "payloads" fun group =>
    .ok ⟨group.tile, some (group.features.flatMap (·.payload)), none⟩

/-- A stage that emits two features of one tile. -/
def twoFeatures : Stage Unit where
  name := "two"
  description := "Two features of one tile"
  kind := .always
  substages := []
  task := fun _ => BuildState.forEach BuildState.emit [⟨5, [1]⟩, ⟨3, [2]⟩]

/-- A build that appends two features to an archive. -/
def appending (output : String) : Pipeline Unit where
  settings :=
    { Settings.standard 1 with
      workspace := "work"
      output := { OutputSettings.standard with append := true } }
  stages := [twoFeatures]
  profile := some payloads
  output := some output
  overwrite := false
  input := none
  ran := false

/-- Its archive: one file of lines. -/
def oneFile : ArchiveConfig := ⟨.csv, 1, true, LineOptions.forFormat .csv⟩

/-- Its plan. -/
def appendingPlan : RunPlan := ⟨SpillConfig.standard, oneFile⟩

/-- A disk that holds one file. -/
def heldDisk : Disk := ⟨[(["old.csv"], .file 0)], [[111, 108, 100, 10]]⟩

/-- The disk once the build has its directory. -/
def startDisk : Disk :=
  { heldDisk with
    entries :=
      (["work", "tilepress-000000"], .directory) :: (["work"], .directory) :: heldDisk.entries }

/-- The disk once there is room for chunks. -/
def roomDisk : Disk :=
  { startDisk with
    entries := (["work", "tilepress-000000", "feature.db"], .directory) :: startDisk.entries
    files := startDisk.files ++ [[]] }

/-- The state in which the stage begins. -/
def startState : BuildState Unit where
  disk :=
    { roomDisk with
      entries :=
        (["work", "tilepress-000000", "feature.db"], .directory) ::
          (["work", "tilepress-000000", "node.db"], .file 1) :: startDisk.entries }
  sorter := .fresh "work/tilepress-000000/feature.db" .standard
  nodes := ⟨"work/tilepress-000000/node.db", 0, .filling (.ofHandle ⟨1, some 0⟩) none⟩
  own := ()

/-- The state in which the stage ends. -/
def endState : BuildState Unit :=
  { startState with sorter := (startState.sorter.push ⟨5, [1]⟩).push ⟨3, [2]⟩ }

/-- The two features, about to be handed out. -/
def twoMerge : Merge := ⟨[⟨⟨3, [2]⟩, .memory [⟨5, [1]⟩]⟩], none, none, false⟩

/-- A file whose path leads to nothing is new. -/
theorem vacant_oneFile {disk : Disk} (free : disk.lookup ["tiles.csv"] = none) :
    ArchiveWriter.Vacant "tiles.csv" disk 0 oneFile.shards := by
  intro index _ below number
  obtain rfl : index = 0 := by simpa [oneFile] using below
  rw [show (Path.ofText (Routing.shardPath "tiles.csv" 0)).location = ["tiles.csv"] by decide, free]
  exact nofun

theorem plan_appending (output : String) : (appending output).plan heldDisk = .ok appendingPlan := by
  change (appending "").plan heldDisk = .ok appendingPlan
  decide

theorem begin_appending :
    begin appendingPlan.spill "work/tilepress-000000" startDisk () =
      (.ok startState, startState.disk) := by
  with_unfolding_all rfl

theorem stage_appending :
    BuildState.forEach BuildState.emit [⟨5, [1]⟩, ⟨3, [2]⟩] startState = (.ok (), endState) := by
  decide

theorem sort_appending :
    endState.nodes.delete endState.disk = (.ok (), roomDisk) ∧
      ∃ after, endState.sorter.sort roomDisk = (.ok twoMerge, after, roomDisk) ∧
        after.counters = endState.sorter.counters := by
  refine ⟨by decide, endState.sorter.emptied, Sorter.sort_of_merge rfl ?_, rfl⟩
  have order : Sorter.inKeyOrder [⟨5, [1]⟩, ⟨3, [2]⟩] = [⟨3, [2]⟩, ⟨5, [1]⟩] :=
    Sorter.inKeyOrder_swap (by decide)
  rw [show endState.sorter.buffer.toList = [⟨5, [1]⟩, ⟨3, [2]⟩] from rfl, order]
  decide

theorem emits_appending {output : String}
    (created : createDirectory "work" (outputParts output oneFile) heldDisk =
      (.ok "work/tilepress-000000", startDisk)) :
    (appending output).Emits payloads output heldDisk () [⟨5, [1]⟩, ⟨3, [2]⟩] := by
  intro site state begins
  obtain ⟨rfl, rfl⟩ := eq_of_begins (plan_appending output) rfl created begin_appending begins
  exact ⟨endState, .ran rfl stage_appending (BuildState.emits_forEach _ stage_appending) (.nil _)⟩

theorem runAll_appending (output : String) :
    Stage.runAll (appending output).settings payloads (appending output).stages startState =
      (.ok ⟨1, 0⟩, endState) := by
  have ran : twoFeatures.task ⟨twoFeatures.name, (appending output).settings, payloads⟩ startState =
      (.ok (), endState) := stage_appending
  rw [show (appending output).stages = [twoFeatures] from rfl, Stage.runAll,
    if_neg (by decide), ran]
  rfl

theorem run_appending {output : String} {last : Disk}
    (created : createDirectory "work" (outputParts output oneFile) heldDisk =
      (.ok "work/tilepress-000000", startDisk))
    (written : writeArchive (appending output).settings payloads output oneFile twoMerge roomDisk =
      (.ok ⟨1, 0, 2⟩, last)) :
    (appending output).run heldDisk () =
      (.ok ⟨1, 0, 2, 0, 1, 0⟩, { appending output with ran := true },
        (last.removeTree (Path.ofText "work/tilepress-000000")).2, ()) := by
  obtain ⟨deleted, after, sorted, counters⟩ := sort_appending
  have archived : archive (appending output).settings payloads output appendingPlan.archive ⟨1, 0⟩
      endState = (.ok ⟨1, 0, 2, 0, 1, 0⟩, last, ()) := by
    rw [archive, deleted]
    dsimp only
    rw [sorted]
    dsimp only
    rw [show appendingPlan.archive = oneFile from rfl, written, counters]
    rfl
  exact run_of_archive rfl (plan_appending output) rfl created begin_appending
    (runAll_appending output) archived

theorem drain_twoMerge (disk : Disk) :
    ∃ after, twoMerge.drain disk = ([.ok ⟨3, [2]⟩, .ok ⟨5, [1]⟩], after, disk) := by
  refine ⟨⟨[], none, none, true⟩, ?_⟩
  have first : twoMerge.next disk =
      (some (.ok ⟨3, [2]⟩), ⟨[⟨⟨5, [1]⟩, .memory []⟩], none, none, false⟩, disk) := rfl
  have second : (⟨[⟨⟨5, [1]⟩, .memory []⟩], none, none, false⟩ : Merge).next disk =
      (some (.ok ⟨5, [1]⟩), ⟨[], none, none, false⟩, disk) := rfl
  have third : (⟨[], none, none, false⟩ : Merge).next disk =
      (none, ⟨[], none, none, true⟩, disk) := rfl
  rw [Merge.drain_of_next first, Merge.drain_of_next second, Merge.drain_of_end third]

theorem groups_twoFeatures :
    groups [.ok ⟨3, [2]⟩, .ok ⟨5, [1]⟩] = [.ok ⟨⟨0, 0, 0⟩, [⟨3, [2]⟩, ⟨5, [1]⟩]⟩] := by
  have tile : (⟨3, [2]⟩ : Feature).tile? = .ok ⟨0, 0, 0⟩ := by decide
  have span : spanTile (⟨3, [2]⟩ : Feature).tileId [.ok ⟨5, [1]⟩] = ([⟨5, [1]⟩], []) := rfl
  rw [groups, groupsAfter, Option.filter_none]
  dsimp only
  rw [tile, span, groupsAfter]

theorem writeArchive_oneFile (settings : Settings) {output : String} {disk opened : Disk}
    {merge after : Merge} {items : List (Except SortError Feature)}
    (above : ArchiveWriter.ensureParent (Path.ofText output) disk = (.ok (), opened))
    (drained : merge.drain opened = (items, after, opened)) :
    writeArchive settings payloads output oneFile merge disk =
      (let writer : ArchiveWriter Disk OpenFile :=
        ⟨[.ofOutlet 0 oneFile (Disk.outlet true (Routing.shardPath output 0))], 0⟩
      let (result, writer, disk) :=
        writeTiles (groups items) payloads ⟨settings.batchSize, settings.emitEmptyTiles⟩ writer opened
      (result.map (·.1), writer.release disk)) := by
  rw [writeArchive, ArchiveWriter.ofPath, show oneFile.check = .ok () by decide]
  dsimp only
  rw [above]
  dsimp only
  rw [show ArchiveWriter.ofOutlets oneFile
      (fun index => Disk.outlet oneFile.append (Routing.shardPath output index)) =
        .ok ⟨[.ofOutlet 0 oneFile (Disk.outlet true (Routing.shardPath output 0))], 0⟩ from rfl]
  dsimp only
  rw [drained]

/-- The line that the two features end up in. -/
def twoLine : Bytes := [48, 44, 48, 44, 48, 44, 65, 103, 69, 61, 10]

theorem writeArchive_new :
    writeArchive (appending "tiles.csv").settings payloads "tiles.csv" oneFile twoMerge roomDisk =
      (.ok ⟨1, 0, 2⟩,
        ⟨(["tiles.csv"], .file 2) :: roomDisk.entries, roomDisk.files ++ [twoLine]⟩) := by
  have above : ArchiveWriter.ensureParent (Path.ofText "tiles.csv") roomDisk =
      (.ok (), roomDisk) := by
    decide
  obtain ⟨after, drained⟩ := drain_twoMerge roomDisk
  rw [writeArchive_oneFile _ above drained, groups_twoFeatures]
  unfold writeTiles
  simp only [writeBatches]
  with_unfolding_all rfl

theorem createDirectory_new :
    createDirectory "work" (outputParts "tiles.csv" oneFile) heldDisk =
      (.ok "work/tilepress-000000", startDisk) := by
  with_unfolding_all rfl

theorem run_writes_emitted_tiles_new :
    ∃ summary tiles last, (appending "tiles.csv").run heldDisk () =
        (.ok summary, { appending "tiles.csv" with ran := true }, last, ()) ∧
      List.Forall₂ (payloads.Makes [⟨5, [1]⟩, ⟨3, [2]⟩]) (tileIds [⟨5, [1]⟩, ⟨3, [2]⟩]) tiles ∧
      Complete (appending "tiles.csv").settings payloads "tiles.csv" oneFile
        [⟨5, [1]⟩, ⟨3, [2]⟩] tiles summary last := by
  have done := run_appending createDirectory_new writeArchive_new
  have ok : ((appending "tiles.csv").run heldDisk ()).1 = .ok ⟨1, 0, 2, 0, 1, 0⟩ := by rw [done]
  obtain ⟨-, complete⟩ := run_writes_emitted_tiles
    (fun _ => Frame.lossless_codec) (show (appending "tiles.csv").ran = false from rfl) rfl rfl
    (List.cons_ne_nil _ _)
    (by decide) (show (appending "tiles.csv").settings.archiveConfig = .ok oneFile by
      decide)
    (by simp [appending, Settings.standard, SortSettings.standard])
    (by decide)
    (fun _ index below => @vacant_oneFile heldDisk (by decide) index (Nat.zero_le _) (by omega))
    (emits_appending createDirectory_new)
    (by
      intro error failed
      rw [ok] at failed
      cases failed)
  obtain ⟨tiles, makes, complete⟩ := complete _ ok
  rw [done] at complete
  exact ⟨_, tiles, _, done, makes, complete⟩

theorem writeArchive_old :
    writeArchive (appending "new/../old.csv").settings payloads "new/../old.csv" oneFile twoMerge
        roomDisk =
      (.ok ⟨1, 0, 2⟩,
        ⟨(["new"], .directory) :: roomDisk.entries, [[111, 108, 100, 10] ++ twoLine, []]⟩) := by
  have above : ArchiveWriter.ensureParent (Path.ofText "new/../old.csv") roomDisk =
      (.ok (), { roomDisk with entries := (["new"], .directory) :: roomDisk.entries }) := by
    decide
  obtain ⟨after, drained⟩ := drain_twoMerge _
  rw [writeArchive_oneFile _ above drained, groups_twoFeatures]
  unfold writeTiles
  simp only [writeBatches]
  with_unfolding_all rfl

theorem makes_payloads {rendered : RenderedTile}
    (makes : payloads.Makes [⟨5, [1]⟩, ⟨3, [2]⟩] 0 rendered) :
    rendered = ⟨⟨0, 0, 0⟩, some [2, 1], none⟩ := by
  obtain ⟨tile, decoded, done, -⟩ := makes
  have features : featuresOf [⟨5, [1]⟩, ⟨3, [2]⟩] 0 = [⟨3, [2]⟩, ⟨5, [1]⟩] := by
    simp [featuresOf, Feature.tileId, Feature.secondary, List.mergeSort,
      List.MergeSort.Internal.splitInTwo]
  cases (show Tile.ofId? 0 = .ok ⟨0, 0, 0⟩ by decide).symm.trans decoded
  rw [features] at done
  cases done
  rfl

/-- A path that leads to nothing may lead to a file once the directory in front of it is made.  An
archive that is appended there does not stand alone. -/
theorem run_appends_behind_old_file :
    (appending "new/../old.csv").ran = false ∧
      (appending "new/../old.csv").profile = some payloads ∧
      (appending "new/../old.csv").output = some "new/../old.csv" ∧
      (appending "new/../old.csv").stages ≠ [] ∧
      (appending "new/../old.csv").settings.check = .ok () ∧
      (appending "new/../old.csv").settings.archiveConfig = .ok oneFile ∧
      (∀ index < oneFile.shards,
        heldDisk.holds (Path.ofText (Routing.shardPath "new/../old.csv" index)) = false) ∧
      (appending "new/../old.csv").Emits payloads "new/../old.csv" heldDisk ()
        [⟨5, [1]⟩, ⟨3, [2]⟩] ∧
      ∃ summary last, (appending "new/../old.csv").run heldDisk () =
          (.ok summary, { appending "new/../old.csv" with ran := true }, last, ()) ∧
        ¬∃ tiles,
          List.Forall₂ (payloads.Makes [⟨5, [1]⟩, ⟨3, [2]⟩]) (tileIds [⟨5, [1]⟩, ⟨3, [2]⟩])
            tiles ∧
          Complete (appending "new/../old.csv").settings payloads "new/../old.csv" oneFile
            [⟨5, [1]⟩, ⟨3, [2]⟩] tiles summary last := by
  have created : createDirectory "work" (outputParts "new/../old.csv" oneFile) heldDisk =
      (.ok "work/tilepress-000000", startDisk) := by
    with_unfolding_all rfl
  have done := run_appending created writeArchive_old
  refine ⟨rfl, rfl, rfl, List.cons_ne_nil _ _, by decide, by decide,
    by decide, emits_appending created, _, _, done, ?_⟩
  rintro ⟨tiles, makes, complete⟩
  have ids : tileIds [⟨5, [1]⟩, ⟨3, [2]⟩] = [0] := by
    simp [tileIds, Feature.tileId]
  rw [ids] at makes
  obtain ⟨rendered, _, first, rest, rfl⟩ := List.forall₂_cons_left_iff.1 makes
  cases rest
  rw [makes_payloads first] at complete
  have alone := complete.shards 0 (by decide)
  revert alone
  decide

end

end Pipeline
end TileBindery
