import TileBindery.Proofs.Pipeline.CutGroups
import TileBindery.Proofs.Spill.Damage

/-!
# Runs whose features cannot all be read

What the stages of a run emit is archived even if a chunk file cannot be read to its end, up to where
the error is met.  The main statement says what the files of an archive hold then, whether the run
succeeds or fails: nothing but headers, or the tiles that were handed over, each rendered from all
features of its tile.  One tile alone may lack features, the last in front of the error, if a batch
ends with it.
-/

namespace TileBindery

open Grouping TileWriting

variable {σ : Type} {features : List Feature}

/-- Stages have emitted features to the sorter of a run, of whose chunk files a front is left to read
unless the sorter refuses to be sorted.  No file stands where the archive goes. -/
structure BuildState.Frayed [Codec] (site : RunSite) (features : List Feature)
    (state : BuildState σ) : Prop where
  /-- Once the node table is gone, the chunk files hold fronts of what was spilled. -/
  sorter : ∀ cleared, state.nodes.delete state.disk = (.ok (), cleared) →
    state.sorter.phase = .collecting → state.sorter.Frays cleared features
  /-- Shards will be written to new files. -/
  vacant : ArchiveWriter.Vacant site.output state.disk 0 site.archive.shards

/-- Damage to chunk files frays what stages have emitted. -/
theorem BuildState.Ready.frayed [Codec] {site : RunSite} {state : BuildState σ} {other : Disk}
    (ready : state.Ready site features) (plain : state.sorter.config.compress = false)
    (damaged : ∀ cleared, state.nodes.delete other = (.ok (), cleared) →
      ∀ chunk ∈ state.sorter.chunks, ∀ octets,
        state.disk.read (Path.ofText chunk.path) = .ok octets →
        ∃ left, cleared.read (Path.ofText chunk.path) = .ok left ∧
          Chunk.Damaged octets (chunk.contents state.disk).features left)
    (vacant : ArchiveWriter.Vacant site.output other 0 site.archive.shards) :
    { state with disk := other }.Frayed site features where
  sorter cleared deleted _ := ready.sorter.frays_of_damaged plain (damaged cleared deleted)
  vacant := vacant

namespace Pipeline

/-- The stages of a run, wherever they begin and whether one of them fails, leave features of which a
front can be read. -/
def Frays [Codec] [Naming] (pipeline : Pipeline σ) (profile : Profile σ) (output : String)
    (disk : Disk) (own : σ) (features : List Feature) : Prop :=
  ∀ site state, pipeline.Begins output disk own site state →
    (Stage.runAll pipeline.settings profile pipeline.stages state).2.Frayed site features

/-- The tiles that an archive was handed, whether it has been finished or not. -/
structure HandedOver {α : Type} (settings : Settings) (profile : Profile σ) (output : String)
    (archive : ArchiveConfig) (features : List Feature)
    (tiles : List (TileFeatures × RenderedTile)) (result : Except PipelineError α) (disk : Disk) :
    Prop where
  /-- Each tile is what its group is rendered to. -/
  rendered : ∀ made ∈ tiles, profile.render made.1 = .ok made.2 ∧ made.2.tile = made.1.tile
  /-- The group holds all features of its tile, unless an error has cut it short. -/
  whole : ∀ made ∈ tiles, made.1.features = featuresOf features made.1.tile.id ∨
    Cut settings.batchSize features tiles made ∧ ∃ reason, result = .error (.sort reason)
  /-- An archive that is finished holds header, tiles and footer. -/
  finished : ∀ value, result = .ok value → ∀ index < archive.shards,
    disk.read (Path.ofText (Routing.shardPath output index)) =
      .ok (archiveOctets archive profile.metadata settings.emitEmptyTiles (tiles.map (·.2)) index)
  /-- One that is not holds header and tiles. -/
  unfinished : ∀ error, result = .error error → ∀ index < archive.shards,
    disk.read (Path.ofText (Routing.shardPath output index)) =
      .ok (partOctets archive profile.metadata settings.emitEmptyTiles (tiles.map (·.2)) index)

/-- What a run leaves of whose features a front can be read. -/
inductive Left (settings : Settings) (profile : Profile σ) (output : String)
    (archive : ArchiveConfig) (features : List Feature) (result : Except PipelineError RunSummary)
    (disk : Disk) : Prop where
  /-- It fails without handing a tile over. -/
  | bare {error : PipelineError} (failed : result = .error error)
      (bare : ArchiveWriter.Bare archive output profile.metadata disk)
  /-- It has handed tiles over. -/
  | handed {tiles : List (TileFeatures × RenderedTile)}
      (handed : HandedOver settings profile output archive features tiles result disk)

variable {settings : Settings} {profile : Profile σ} {site : RunSite}

/-- A batch that holds an error is refused with it. -/
theorem refusal_of_stream {size : Nat} {groups : Stream TileFeatures} {error : SortError}
    (stream : groups = ((handed profile size groups).map (·.1)).map .ok ++ [.error error]) :
    refusal profile size groups = some (.sort error) := by
  have behind : groups.drop (handed profile size groups).length = [.error error] := by
    generalize handed profile size groups = tiles at stream
    rw [stream]
    exact List.drop_left' (by simp)
  rw [← refusal_drop, behind, refusal]
  rfl

/-- What is handed over of a front of all features is whole, or cut short by the error behind. -/
theorem whole_or_cut {contents : RunContents} {size : Nat} (some_tile : 0 < size)
    (begins : contents.FrontOf (Sorter.inKeyOrder features))
    {made : TileFeatures × RenderedTile}
    (member : made ∈ handed profile size (groups contents.items)) :
    made.1.features = featuresOf features made.1.tile.id ∨
      Cut size features (handed profile size (groups contents.items)) made ∧
        ∃ reason, refusal profile size (groups contents.items) = some (.sort reason) := by
  have front := @front_handed _ profile _ some_tile (groups contents.items)
  rcases front.whole_or_cut begins member with whole | ⟨cut, error, stream⟩
  · exact .inl whole
  · exact .inr ⟨cut, error, refusal_of_stream stream⟩

/-- Writing an archive of a front of all features hands over tiles, unless the device refuses. -/
theorem handedOver_writeArchive {disk : Disk} {merge : Merge} {contents : RunContents}
    (settings : Settings) (profile : Profile σ) (some_tile : 0 < settings.batchSize)
    (valid : site.archive.check = .ok ()) (some_shard : 0 < site.archive.shards)
    (vacant : ArchiveWriter.Vacant site.output disk 0 site.archive.shards)
    (yields : merge.Yields disk contents.items)
    (begins : contents.FrontOf (Sorter.inKeyOrder features)) :
    (∃ error behind, writeArchive settings profile site.output site.archive merge disk =
        (.error error, behind) ∧
        ArchiveWriter.Bare site.archive site.output profile.metadata behind) ∨
      ∃ tiles, HandedOver settings profile site.output site.archive features tiles
        (writeArchive settings profile site.output site.archive merge disk).1
        (writeArchive settings profile site.output site.archive merge disk).2 := by
  have front := @front_handed _ profile _ some_tile (groups contents.items)
  have each {made} := @whole_or_cut _ _ profile _ _ some_tile begins made
  rcases writeArchive_handed settings profile valid some_shard (fun _ => vacant) yields with
    ⟨reason, behind, refused, bare⟩ | ⟨accepted, _, counts, behind, rfl, done, -, -, shards⟩ |
      ⟨error, _, behind, refused, rfl, failed, shards⟩
  · exact .inl ⟨_, behind, refused, bare vacant⟩
  · rw [done]
    refine .inr ⟨_, front.rendered, fun made member => ?_, fun _ _ => shards, fun _ failed => ?_⟩
    · rcases each member with whole | ⟨-, reason, refused⟩
      · exact .inl whole
      · rw [accepted] at refused
        cases refused
    · cases failed
  · rw [failed]
    refine .inr ⟨_, front.rendered, fun made member => ?_, fun _ ok => ?_, fun _ _ => shards⟩
    · rcases each member with whole | ⟨cut, reason, same⟩
      · exact .inl whole
      · rw [refused] at same
        cases same
        exact .inr ⟨cut, reason, rfl⟩
    · cases ok

/-- What an archive was handed does not depend on what else a run tells. -/
theorem HandedOver.map {α β : Type} {output : String} {archive : ArchiveConfig}
    {tiles : List (TileFeatures × RenderedTile)} {result : Except PipelineError α} {disk : Disk}
    (handed : HandedOver settings profile output archive features tiles result disk) (f : α → β) :
    HandedOver settings profile output archive features tiles (result.map f) disk where
  rendered := handed.rendered
  whole made member := by
    rcases handed.whole made member with whole | ⟨cut, reason, failed⟩
    · exact .inl whole
    · exact .inr ⟨cut, reason, by rw [failed]; rfl⟩
  finished value ok := by
    cases result with
    | ok own => exact handed.finished own rfl
    | error error => cases ok
  unfinished error failed := by
    cases result with
    | ok value => cases failed
    | error own => exact handed.unfinished own rfl

/-- What stages have left is archived as far as it can be read. -/
theorem left_archive [Codec] {state : BuildState σ} (settings : Settings) (profile : Profile σ)
    (tally : StageTally) (some_tile : 0 < settings.batchSize) (valid : site.archive.check = .ok ())
    (some_shard : 0 < site.archive.shards) (frayed : state.Frayed site features) :
    Left settings profile site.output site.archive features
      (archive settings profile site.output site.archive tally state).1
      (archive settings profile site.output site.archive tally state).2.1 := by
  have fronts := frayed.sorter
  rw [archive]
  rw [NodeTable.delete] at fronts ⊢
  cases removed : state.disk.removeFile (Path.ofText state.nodes.path) with
  | error reason => exact .bare rfl (frayed.vacant.bare _)
  | ok cleared =>
      rw [removed] at fronts
      dsimp only at fronts ⊢
      have shed := Disk.sheds_removeFile removed
      have sorted_shed := Sorter.sheds_sort state.sorter cleared
      have vacant := frayed.vacant.of_lookup fun _ _ stands =>
        shed.file_of_file (sorted_shed.file_of_file stands)
      cases sorted : state.sorter.sort cleared with
      | mk result after =>
          obtain ⟨after, behind⟩ := after
          rw [sorted] at vacant
          cases result with
          | error error => exact .bare rfl (vacant.bare _)
          | ok merge =>
              have frays := fronts cleared rfl (Sorter.collecting_of_merge sorted)
              obtain ⟨contents, yields, begins⟩ := frays.sort sorted
              dsimp only at vacant ⊢
              rcases handedOver_writeArchive settings profile some_tile valid some_shard vacant
                yields begins with ⟨error, last, refused, bare⟩ | ⟨tiles, handed⟩
              · rw [refused]
                exact .bare rfl bare
              · exact .handed (handed.map _)

/-- Removing the run's directory takes nothing of the archive. -/
theorem Left.removeTree {result : Except PipelineError RunSummary} {disk : Disk}
    (apart : site.Apart)
    (left : Left settings profile site.output site.archive features result disk) :
    Left settings profile site.output site.archive features result
      (disk.removeTree (Path.ofText site.directory)).2 := by
  have same {index : Nat} (below : index < site.archive.shards) {octets : Bytes} :
      (disk.removeTree (Path.ofText site.directory)).2.read
          (Path.ofText (Routing.shardPath site.output index)) = .ok octets ↔
        disk.read (Path.ofText (Routing.shardPath site.output index)) = .ok octets := by
    obtain ⟨name, own, other⟩ := apart index below
    exact Disk.read_removeTree own other
  cases left with
  | bare failed bare =>
      refine .bare failed fun index below octets found => ?_
      exact bare index below octets ((same below).1 found)
  | handed handed =>
      refine .handed { handed with finished := ?_, unfinished := ?_ }
      · exact fun value ok index below => (same below).2 (handed.finished value ok index below)
      · exact fun error failed index below =>
          (same below).2 (handed.unfinished error failed index below)

variable {pipeline : Pipeline σ} {output : String}

/-- Whether a run succeeds or fails, and whatever has become of its chunk files, the archive holds
headers alone, or tiles that are rendered from all of their features, but for the last of a full batch
behind which features could not be read. -/
theorem run_archives_whole_or_cut [Codec] [Naming] {config : ArchiveConfig}
    {disk cleared : Disk} {own : σ} (profiled : pipeline.profile = some profile)
    (aimed : pipeline.output = some output)
    (options : pipeline.settings.archiveConfig = .ok config)
    (bytes : ∀ pinned ∈ pipeline.settings.sort.chunkBytes, pinned < 2 ^ 64)
    (room : pipeline.clearOutput output config disk = (.ok (), cleared))
    (vacant : ArchiveWriter.Vacant output cleared 0 config.shards)
    (frays : pipeline.Frays profile output disk own features) :
    ((∃ error, (pipeline.run disk own).1 = .error error) ∧ (pipeline.run disk own).2.2.1 = disk) ∨
      Left pipeline.settings profile output config features (pipeline.run disk own).1
        (pipeline.run disk own).2.2.1 := by
  rw [run]
  cases essentials : pipeline.essentials with
  | error error => exact .inl ⟨⟨error, rfl⟩, rfl⟩
  | ok found =>
      obtain rfl := found_of_essentials profiled aimed essentials
      dsimp only
      cases planned : pipeline.plan disk with
      | error error => exact .inl ⟨⟨_, rfl⟩, rfl⟩
      | ok plan =>
          have valid := check_of_plan planned
          obtain ⟨archive_valid, some_shard⟩ := Settings.check_archiveConfig options
          obtain ⟨size, rfl⟩ : ∃ size, plan = ⟨pipeline.settings.spillConfig size, config⟩ := by
            rcases plan_of_check disk valid options with ⟨path, reason, refused⟩ | ⟨size, same⟩
            · cases planned.symm.trans refused
            · cases planned.symm.trans same
              exact ⟨size, rfl⟩
          right
          refine execute_ends planned (Settings.check_spillConfig valid size)
            (Settings.chunkBytes_lt bytes size) room (fun _ => vacant) ?_ ?_ ?_
            fun directory result disk apart left => left.removeTree apart
          · exact fun error last _ free => .bare rfl ((free vacant).bare _)
          · intro directory state last error begins failed
            have frayed := frays _ state begins
            rw [failed] at frayed
            exact .bare rfl (frayed.vacant.bare _)
          · intro directory state last tally apart ready begins ran
            have frayed := frays _ state begins
            rw [ran] at frayed
            exact left_archive pipeline.settings profile tally (Settings.batchSize_pos valid)
              archive_valid some_shard frayed

/-! ### A build whose chunk file is damaged -/

section

attribute [local instance] Frame.codec Naming.numbered

/-- A stage that takes the last octet from every chunk file. -/
def damage : Stage Unit where
  name := "damage"
  description := "Cuts the chunk files"
  kind := .always
  substages := []
  task := fun _ state =>
    (.ok (), { state with
      disk := state.sorter.chunks.foldl (fun disk chunk =>
        (disk.modify (Path.ofText chunk.path) List.dropLast).toOption.getD disk) state.disk })

/-- A build that spills two features of one tile, cuts the chunk file, and renders tile by tile. -/
def cutting : Pipeline Unit :=
  { appending "tiles.csv" with
    settings :=
      { (appending "tiles.csv").settings with
        batchSize := 1
        sort := { SortSettings.standard with chunkFeatures := some 2 } }
    stages := [twoFeatures, damage] }

/-- Its plan. -/
def cuttingPlan : RunPlan := ⟨{ SpillConfig.standard with chunkFeatures := some 2 }, oneFile⟩

/-- Where it works. -/
def cuttingSite : RunSite := ⟨"work/tilepress-000000", "tiles.csv", oneFile⟩

/-- The state in which its stages begin. -/
def emptyState : BuildState Unit :=
  { startState with sorter := .fresh "work/tilepress-000000/feature.db" cuttingPlan.spill }

/-- The chunk of its features. -/
def pairChunk : Chunk := ⟨"work/tilepress-000000/feature.db/chunk-000000.chunk", 0, 2, 66⟩

/-- The octets of the chunk's file. -/
def pairOctets : Bytes :=
  (ChunkHeader.ofCounts 0 2 false).encode ++
    [⟨3, [2]⟩, ⟨5, [1]⟩].flatMap ChunkRecord.encode

/-- A disk with octets in the chunk's file. -/
def pairDisk (octets : Bytes) : Disk where
  entries :=
    (["work", "tilepress-000000", "feature.db", "chunk-000000.chunk"], .file 2) ::
      emptyState.disk.entries
  files := emptyState.disk.files ++ [octets]

/-- The state once the features are spilled. -/
def spilledState : BuildState Unit :=
  { emptyState with
    disk := pairDisk pairOctets
    sorter := ((emptyState.sorter.push ⟨5, [1]⟩).push ⟨3, [2]⟩).stored pairChunk }

/-- The disk once the chunk is cut and the node table is gone. -/
def shortDisk : Disk where
  entries :=
    (["work", "tilepress-000000", "feature.db", "chunk-000000.chunk"], .file 2) :: roomDisk.entries
  files := (pairDisk pairOctets.dropLast).files

/-- What is left of the chunk behind its first feature. -/
def shortRun : Run :=
  .chunk pairChunk ⟨pairChunk.path, .ofCounts 0 2 false, 1,
    .plain ⟨2, 65, (ChunkRecord.encode ⟨5, [1]⟩).dropLast⟩⟩

/-- The merge of the chunk. -/
def shortMerge : Merge := ⟨[⟨⟨3, [2]⟩, shortRun⟩], none, none, false⟩

/-- What the run fails with. -/
def shortError : SortError := .corruption (.cutRecords pairChunk.path 1 2)

/-- The line of the first feature alone. -/
def shortLine : Bytes := [48, 44, 48, 44, 48, 44, 65, 103, 61, 61, 10]

/-- The disk once it is archived. -/
def shortArchive : Disk where
  entries := (["tiles.csv"], .file 3) :: shortDisk.entries
  files := shortDisk.files ++ [shortLine]

theorem plan_cutting : cutting.plan heldDisk = .ok cuttingPlan := by
  decide

theorem begin_cutting :
    begin cuttingPlan.spill "work/tilepress-000000" startDisk () =
      (.ok emptyState, emptyState.disk) := by
  with_unfolding_all rfl

theorem stage_cutting :
    BuildState.forEach BuildState.emit [⟨5, [1]⟩, ⟨3, [2]⟩] emptyState = (.ok (), spilledState) := by
  have first : emptyState.sorter.add ⟨5, [1]⟩ emptyState.disk =
      (.ok (), emptyState.sorter.push ⟨5, [1]⟩, emptyState.disk) := by
    decide
  have order : Sorter.inKeyOrder [⟨5, [1]⟩, ⟨3, [2]⟩] = [⟨3, [2]⟩, ⟨5, [1]⟩] :=
    Sorter.inKeyOrder_swap (by decide)
  have wrote : ((emptyState.sorter.push ⟨5, [1]⟩).push ⟨3, [2]⟩).writeBuffer emptyState.disk =
      (.ok pairChunk, pairDisk pairOctets) := by
    rw [Sorter.writeBuffer]
    change Chunk.write _ 0 (Sorter.inKeyOrder [⟨5, [1]⟩, ⟨3, [2]⟩]) _ _ = _
    rw [order]
    decide +kernel
  simp only [BuildState.forEach, BuildState.emit, first, Except.mapError]
  rw [Sorter.add_of_full _ (by decide) rfl (by decide), Sorter.spill_eq, wrote]
  rfl

theorem runAll_cutting :
    Stage.runAll cutting.settings payloads cutting.stages emptyState =
      (.ok ⟨2, 0⟩, { spilledState with disk := pairDisk pairOctets.dropLast }) := by
  have ran : twoFeatures.task ⟨twoFeatures.name, cutting.settings, payloads⟩ emptyState =
      (.ok (), spilledState) := stage_cutting
  have cut : damage.task ⟨damage.name, cutting.settings, payloads⟩ spilledState =
      (.ok (), { spilledState with disk := pairDisk pairOctets.dropLast }) := by
    with_unfolding_all rfl
  rw [show cutting.stages = [twoFeatures, damage] from rfl, Stage.runAll, if_neg (by decide), ran]
  dsimp only
  rw [Stage.runAll, if_neg (by decide), cut]
  rfl

theorem delete_cutting :
    spilledState.nodes.delete (pairDisk pairOctets.dropLast) = (.ok (), shortDisk) := by
  decide +kernel

theorem sort_cutting :
    ∃ after, spilledState.sorter.sort shortDisk = (.ok shortMerge, after, shortDisk) := by
  have started : Merge.ofRuns [pairChunk] [] shortDisk = (.ok shortMerge, shortDisk) := by
    decide +kernel
  refine ⟨spilledState.sorter.emptied, Sorter.sort_of_merge rfl ?_⟩
  rw [show Sorter.inKeyOrder spilledState.sorter.buffer.toList = [] from List.mergeSort_nil]
  exact started

theorem drain_shortMerge :
    ∃ after, shortMerge.drain shortDisk =
      ([.ok ⟨3, [2]⟩, .error shortError], after, shortDisk) := by
  obtain ⟨stalled, failed⟩ : ∃ stalled, shortRun.next shortDisk = (.error shortError, stalled) :=
    ⟨_, rfl⟩
  exact ⟨_, Merge.drain_of_failed failed⟩

theorem writeArchive_cutting :
    writeArchive cutting.settings payloads "tiles.csv" oneFile shortMerge shortDisk =
      (.error (.sort shortError), shortArchive) := by
  have above : ArchiveWriter.ensureParent (Path.ofText "tiles.csv") shortDisk =
      (.ok (), shortDisk) := rfl
  obtain ⟨after, drained⟩ := drain_shortMerge
  rw [writeArchive_oneFile _ above drained, groups_of_cut (show Feature.tile? ⟨3, [2]⟩ =
    .ok ⟨0, 0, 0⟩ from rfl)]
  unfold writeTiles
  simp only [writeBatches]
  with_unfolding_all rfl

theorem run_cutting :
    cutting.run heldDisk () =
      (.error (.sort shortError), { cutting with ran := true },
        (shortArchive.removeTree (Path.ofText "work/tilepress-000000")).2, ()) := by
  obtain ⟨after, sorted⟩ := sort_cutting
  have archived : archive cutting.settings payloads "tiles.csv" oneFile ⟨2, 0⟩
      { spilledState with disk := pairDisk pairOctets.dropLast } =
        (.error (.sort shortError), shortArchive, ()) := by
    rw [archive, delete_cutting]
    dsimp only
    rw [sorted]
    dsimp only
    rw [writeArchive_cutting]
    rfl
  exact run_of_archive rfl plan_cutting rfl createDirectory_new begin_cutting runAll_cutting archived

theorem ready_cutting : spilledState.Ready cuttingSite [⟨5, [1]⟩, ⟨3, [2]⟩] := by
  have apart : cuttingSite.Apart := by
    intro index below
    obtain rfl : index = 0 := by simpa [cuttingSite, oneFile] using below
    exact ⟨"tilepress-000000", by decide, by decide⟩
  rcases begin_spec cuttingSite startDisk () (show cuttingPlan.spill.check = .ok () by decide)
      (by decide) apart (fun _ => vacant_oneFile (by decide)) with
    ⟨error, failed, -⟩ | ⟨state, behind, begun, ready⟩
  · cases (congrArg Prod.fst begin_cutting).symm.trans failed
  · cases begin_cutting.symm.trans begun
    exact (BuildState.emits_forEach cuttingSite stage_cutting).ready apart ready

/-- The chunk lacks an octet when it is read. -/
theorem damaged_cutting {cleared : Disk} {chunk : Chunk} {octets : Bytes}
    (deleted : spilledState.nodes.delete (pairDisk pairOctets.dropLast) = (.ok (), cleared))
    (member : chunk ∈ spilledState.sorter.chunks)
    (found : spilledState.disk.read (Path.ofText chunk.path) = .ok octets) :
    ∃ left, cleared.read (Path.ofText chunk.path) = .ok left ∧
      Chunk.Damaged octets (chunk.contents spilledState.disk).features left := by
  cases delete_cutting.symm.trans deleted
  obtain rfl : chunk = pairChunk := List.mem_singleton.1 member
  have held : spilledState.disk.read (Path.ofText pairChunk.path) = .ok pairOctets := by
    decide +kernel
  cases held.symm.trans found
  exact ⟨pairOctets.dropLast, by decide +kernel, .cut (List.dropLast_prefix _)⟩

theorem frays_cutting :
    cutting.Frays payloads "tiles.csv" heldDisk () [⟨5, [1]⟩, ⟨3, [2]⟩] := by
  intro site state begins
  obtain ⟨rfl, rfl⟩ := eq_of_begins plan_cutting rfl createDirectory_new begin_cutting begins
  rw [runAll_cutting]
  exact ready_cutting.frayed rfl
    (fun _ deleted _ member _ found => damaged_cutting deleted member found)
    (vacant_oneFile (by decide))

/-- Of two features of a tile the second cannot be read.  The tile is archived with the first alone,
and then the run fails. -/
theorem run_archives_whole_or_cut_damaged :
    ∃ tiles last, cutting.run heldDisk () =
        (.error (.sort shortError), { cutting with ran := true }, last, ()) ∧
      last.read (Path.ofText "tiles.csv") =
        .ok (oneFile.tilePieces ⟨0, 0, 0⟩ (some [2])).flatten ∧
      HandedOver cutting.settings payloads "tiles.csv" oneFile [⟨5, [1]⟩, ⟨3, [2]⟩] tiles
        (.error (.sort shortError) : Except PipelineError RunSummary) last := by
  have line : (shortArchive.removeTree (Path.ofText "work/tilepress-000000")).2.read
      (Path.ofText "tiles.csv") = .ok (oneFile.tilePieces ⟨0, 0, 0⟩ (some [2])).flatten := by
    decide +kernel
  have left := run_archives_whole_or_cut (show cutting.profile = some payloads from rfl) rfl
    (show cutting.settings.archiveConfig = .ok oneFile by decide)
    (by simp [cutting, SortSettings.standard])
    (show cutting.clearOutput "tiles.csv" oneFile heldDisk = (.ok (), heldDisk) from rfl)
    (vacant_oneFile (by decide)) frays_cutting
  rw [run_cutting] at left
  dsimp only at left
  rcases left with ⟨-, same⟩ | left
  · rw [same] at line
    exact absurd line (by decide +kernel)
  · cases left with
    | bare _ bare =>
        exact absurd (bare 0 Nat.one_pos _ line) (by decide +kernel)
    | handed handed => exact ⟨_, _, run_cutting, line, handed⟩

end

end Pipeline
end TileBindery
