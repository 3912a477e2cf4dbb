import TileBindery.Proofs.Grouping
import TileBindery.Proofs.Pipeline.Batches
import TileBindery.Proofs.Pipeline.Preparation
import TileBindery.Proofs.Spill.Cleanup

/-!
# From emitted features to an archive

Once the stages of a run are done, the features that they have emitted are sorted, grouped, rendered
and archived.  Unless a device refuses, this ends well exactly if every emitted feature belongs to a
tile that can be rendered.
-/

namespace TileBindery

open Grouping TileWriting

/-- A profile makes a tile of all features of an identifier, which has to name the tile. -/
def Profile.Makes {ρ : Type} (profile : Profile ρ) (features : List Feature) (id : Nat)
    (rendered : RenderedTile) : Prop :=
  ∃ tile, Tile.ofId? id = .ok tile ∧
    profile.render ⟨tile, featuresOf features id⟩ = .ok rendered ∧ rendered.tile = tile

variable {ρ : Type} {profile : Profile ρ} {features : List Feature}

/-! ### Rendering all tiles -/

theorem forall₂_untilError {items : Stream TileFeatures}
    {rendered : List (TileFeatures × RenderedTile)} :
    List.Forall₂ profile.Renders (untilError items) rendered ↔
      List.Forall₂ profile.Renders items rendered := by
  induction items generalizing rendered with
  | nil => rfl
  | cons item rest ih =>
      cases item with
      | ok group =>
          rw [untilError, List.forall₂_cons_left_iff, List.forall₂_cons_left_iff]
          simp only [ih]
      | error error =>
          have never (made : TileFeatures × RenderedTile) : ¬profile.Renders (.error error) made := by
            rintro ⟨same, -⟩
            cases same
          rw [untilError, List.forall₂_cons_left_iff, List.forall₂_cons_left_iff]
          constructor
          · rintro ⟨made, _, renders, -⟩
            exact absurd renders (never made)
          · rintro ⟨made, _, renders, -⟩
            exact absurd renders (never made)

theorem renders_groupOf_iff {id : Nat} {made : TileFeatures × RenderedTile} :
    profile.Renders (groupOf id (featuresOf features id)) made ↔
      ∃ tile, Tile.ofId? id = .ok tile ∧ made.1 = ⟨tile, featuresOf features id⟩ ∧
        profile.render ⟨tile, featuresOf features id⟩ = .ok made.2 ∧ made.2.tile = tile := by
  rw [Profile.Renders, groupOf]
  cases decoded : Tile.ofId? id with
  | error error => simp
  | ok tile =>
      obtain ⟨group, rendered⟩ := made
      simp only [Except.ok.injEq, exists_eq_left']
      constructor
      · rintro ⟨rfl, done, own⟩
        exact ⟨rfl, done, own⟩
      · rintro ⟨rfl, done, own⟩
        exact ⟨rfl, done, own⟩

/-- Groups of sorted features can be rendered if the tiles of all identifiers can be made. -/
theorem renders_groups_iff {tiles : List RenderedTile} :
    (∃ rendered, List.Forall₂ profile.Renders
        (groups ((Sorter.inKeyOrder features).map .ok)) rendered ∧
        rendered.map (·.2) = tiles) ↔
      List.Forall₂ (profile.Makes features) (tileIds features) tiles := by
  rw [groups_inKeyOrder]
  simp only [forall₂_untilError, List.forall₂_map_left_iff]
  constructor
  · rintro ⟨rendered, all, rfl⟩
    refine List.forall₂_map_right_iff.2 (all.imp fun id made renders => ?_)
    obtain ⟨tile, decoded, -, done, own⟩ := renders_groupOf_iff.1 renders
    exact ⟨tile, decoded, done, own⟩
  · intro all
    generalize tileIds features = ids at all
    induction all with
    | nil => exact ⟨[], .nil, rfl⟩
    | @cons id rendered _ _ makes _ ih =>
        obtain ⟨tile, decoded, done, own⟩ := makes
        obtain ⟨others, renders, same⟩ := ih
        have first : profile.Renders (groupOf id (featuresOf features id))
            (⟨tile, featuresOf features id⟩, rendered) :=
          renders_groupOf_iff.2 ⟨tile, decoded, rfl, done, own⟩
        exact ⟨_ :: others, .cons first renders, by rw [List.map_cons, same]⟩

/-- All tiles can be made if those of all features can. -/
theorem exists_makes_iff :
    (∃ tiles, List.Forall₂ (profile.Makes features) (tileIds features) tiles) ↔
      ∀ feature ∈ features, ∃ rendered, profile.Makes features feature.tileId rendered := by
  rw [exists_forall₂_iff]
  constructor
  · intro each feature member
    exact each feature.tileId (mem_tileIds.2 ⟨feature, member, rfl⟩)
  · intro each id member
    obtain ⟨feature, feature_mem, rfl⟩ := mem_tileIds.1 member
    exact each feature feature_mem

/-! ### Archiving -/

/-- What a run leaves when all tiles have been made. -/
structure Complete (settings : Settings) (profile : Profile ρ) (output : String)
    (archive : ArchiveConfig) (features : List Feature) (tiles : List RenderedTile)
    (summary : RunSummary) (disk : Disk) : Prop where
  /-- Every emitted feature has been counted. -/
  features : summary.features = features.length
  /-- So has every tile in the archive. -/
  written : summary.tilesWritten = (kept settings.emitEmptyTiles tiles).length
  /-- The other tiles have been counted as well. -/
  skipped : summary.tilesWritten + summary.tilesSkipped = tiles.length
  /-- Every shard holds its part of the archive. -/
  shards : ∀ index < archive.shards,
    disk.read (Path.ofText (Routing.shardPath output index)) =
      .ok (archiveOctets archive profile.metadata settings.emitEmptyTiles tiles index)

namespace Pipeline

/-- Writing an archive of what a merge hands out: it gets the tiles that are handed over, and is
finished exactly if no batch is refused.  If the device refuses, it gets no tile at all. -/
theorem writeArchive_handed {site : RunSite} {disk : Disk} {merge : Merge} {items : Stream Feature}
    (settings : Settings) (profile : Profile ρ) (valid : site.archive.check = .ok ())
    (some_shard : 0 < site.archive.shards) (vacant : site.Vacant disk)
    (yields : merge.Yields disk items) :
    (∃ reason behind, writeArchive settings profile site.output site.archive merge disk =
        (.error (.archive (.device reason)), behind) ∧
        (ArchiveWriter.Vacant site.output disk 0 site.archive.shards →
          ArchiveWriter.Bare site.archive site.output profile.metadata behind)) ∨
      (refusal profile settings.batchSize (groups items) = none ∧
        ∃ tiles counts behind, tiles = (handed profile settings.batchSize (groups items)).map (·.2) ∧
          writeArchive settings profile site.output site.archive merge disk = (.ok counts, behind) ∧
          counts.written = (kept settings.emitEmptyTiles tiles).length ∧
          counts.skipped + (kept settings.emitEmptyTiles tiles).length = tiles.length ∧
          ∀ index < site.archive.shards,
            behind.read (Path.ofText (Routing.shardPath site.output index)) =
              .ok (archiveOctets site.archive profile.metadata settings.emitEmptyTiles tiles
                index)) ∨
      ∃ error tiles behind, refusal profile settings.batchSize (groups items) = some error ∧
        tiles = (handed profile settings.batchSize (groups items)).map (·.2) ∧
        writeArchive settings profile site.output site.archive merge disk =
          (.error error, behind) ∧
        ∀ index < site.archive.shards,
          behind.read (Path.ofText (Routing.shardPath site.output index)) =
            .ok (partOctets site.archive profile.metadata settings.emitEmptyTiles tiles index) := by
  have room := ArchiveWriter.grows_ofPath site.archive site.output disk
  rw [writeArchive]
  rcases ArchiveWriter.ofPath_spec valid some_shard site.output disk with ⟨reason, refused⟩ |
    ⟨middle, opened, grown⟩
  · left
    generalize ArchiveWriter.ofPath site.output site.archive disk = outcome at refused room
    obtain ⟨result, behind⟩ := outcome
    cases refused
    refine ⟨reason, behind, rfl, fun free => ?_⟩
    exact (free.of_lookup fun location number => (room.file_iff location number).1).bare _
  · rw [opened]
    dsimp only
    have drained := Merge.drain_of_yields (yields.congr grown.files)
    have shed := Merge.sheds_drain merge middle
    generalize merge.drain middle = drain at drained shed
    obtain ⟨_, empty, behind⟩ := drain
    obtain rfl := drained
    have no_new_file (location : Location) (number : Nat)
        (stands : behind.lookup location = some (.file number)) :
        disk.lookup location = some (.file number) :=
      (grown.file_iff location number).1 (shed.file_of_file stands)
    dsimp only
    rcases writeTiles_handed some_shard (vacant.of_lookup no_new_file) profile
        ⟨settings.batchSize, settings.emitEmptyTiles⟩ (groups _) with
      ⟨reason, failed, last, refused, bare⟩ | ⟨accepted, archived⟩ | ⟨error, refused, unfinished⟩
    · rw [refused]
      exact .inl ⟨reason, _, rfl, fun free => bare (free.of_lookup no_new_file)⟩
    · generalize writeTiles _ profile _ _ behind = outcome at archived
      obtain ⟨result, writer, last⟩ := outcome
      obtain ⟨⟨counts, footer, rfl, written, skipped⟩, shards, released⟩ := archived
      refine .inr (.inl ⟨accepted, _, counts, last, rfl, ?_, written, skipped, shards⟩)
      dsimp only at released ⊢
      rw [released]
      rfl
    · generalize writeTiles _ profile _ _ behind = outcome at unfinished
      obtain ⟨result, writer, last⟩ := outcome
      obtain ⟨rfl, shards⟩ := unfinished
      exact .inr (.inr ⟨error, _, _, refused, rfl, rfl, shards⟩)

/-- How writing an archive of all features ends. -/
theorem writeArchive_spec {site : RunSite} {disk : Disk} {merge : Merge}
    (settings : Settings) (profile : Profile ρ) (valid : site.archive.check = .ok ())
    (some_shard : 0 < site.archive.shards) (vacant : site.Vacant disk)
    (yields : merge.Yields disk ((Sorter.inKeyOrder features).map .ok)) :
    (∃ reason, (writeArchive settings profile site.output site.archive merge disk).1 =
        .error (.archive (.device reason))) ∨
      (∃ tiles, List.Forall₂ (profile.Makes features) (tileIds features) tiles ∧
        ∃ counts behind,
          writeArchive settings profile site.output site.archive merge disk =
            (.ok counts, behind) ∧
          counts.written = (kept settings.emitEmptyTiles tiles).length ∧
          counts.skipped + (kept settings.emitEmptyTiles tiles).length = tiles.length ∧
          ∀ index < site.archive.shards,
            behind.read (Path.ofText (Routing.shardPath site.output index)) =
              .ok (archiveOctets site.archive profile.metadata settings.emitEmptyTiles tiles
                index)) ∨
      (¬∃ tiles, List.Forall₂ (profile.Makes features) (tileIds features) tiles) ∧
        ∃ error, (writeArchive settings profile site.output site.archive merge disk).1 =
          .error error := by
  rcases writeArchive_handed settings profile valid some_shard vacant yields with
    ⟨reason, behind, refused, -⟩ | ⟨accepted, tiles, counts, behind, rfl, done, rest⟩ |
      ⟨error, tiles, behind, refused, -, failed, -⟩
  · exact .inl ⟨reason, by rw [refused]⟩
  · have makes := renders_groups_iff.1 ⟨_, forall₂_handed accepted, rfl⟩
    exact .inr (.inl ⟨_, makes, counts, behind, done, rest⟩)
  · refine .inr (.inr ⟨?_, error, by rw [failed]⟩)
    rintro ⟨tiles, makes⟩
    obtain ⟨rendered, renders, -⟩ := renders_groups_iff.2 makes
    rw [refusal_of_renders renders] at refused
    cases refused

/-- How a run ends once its stages have emitted features. -/
inductive Ended (settings : Settings) (profile : Profile ρ) (output : String)
    (archive : ArchiveConfig) (features : List Feature)
    (result : Except PipelineError RunSummary) (disk : Disk) : Prop where
  /-- A device has refused. -/
  | device {error : PipelineError} (failed : result = .error error) (device : error.IsDevice)
  /-- Some tile cannot be made. -/
  | unmade (unmade : ¬∃ tiles, List.Forall₂ (profile.Makes features) (tileIds features) tiles)
      (failed : ∃ error, result = .error error)
  /-- All tiles have been made. -/
  | complete {tiles : List RenderedTile} {summary : RunSummary}
      (makes : List.Forall₂ (profile.Makes features) (tileIds features) tiles)
      (ok : result = .ok summary)
      (complete : Complete settings profile output archive features tiles summary disk)

/-- What stages have emitted is archived. -/
theorem ended_archive [Codec] {site : RunSite} {state : BuildState ρ} (settings : Settings)
    (profile : Profile ρ) (tally : StageTally) (valid : site.archive.check = .ok ())
    (some_shard : 0 < site.archive.shards)
    (lossless : state.sorter.config.compress = true → Codec.Lossless)
    (ready : state.Ready site features) :
    Ended settings profile site.output site.archive features
      (archive settings profile site.output site.archive tally state).1
      (archive settings profile site.output site.archive tally state).2.1 := by
  rw [archive, NodeTable.delete]
  rw [ready.nodesAt]
  cases removed : state.disk.removeFile (Path.ofText site.nodes) with
  | error reason => exact .device rfl trivial
  | ok cleared =>
      dsimp only
      have shed := Disk.sheds_removeFile removed
      obtain ⟨-, -, rfl⟩ := Disk.removeFile_ok removed
      have holds : state.sorter.Holds (state.disk.unbind (Path.ofText site.nodes).location)
          features := by
        refine ready.sorter.of_undisturbed fun chunk member octets found _ => ?_
        refine shed.read ?_ found
        have inner := (Disk.read_iff.1 found).1.location_ne_nil
        rw [Disk.lookup_unbind inner, if_neg]
        rw [ready.chunk_path member]
        exact site.chunk_apart_nodes chunk.number
      have sorted_shed := Sorter.sheds_sort state.sorter
        (state.disk.unbind (Path.ofText site.nodes).location)
      obtain ⟨merge, after, behind, sorted, counters, yields⟩ := holds.sort lossless
      rw [sorted] at sorted_shed ⊢
      dsimp only at sorted_shed ⊢
      have vacant : site.Vacant behind := ready.vacant.of_lookup fun location number stands =>
        shed.file_of_file (sorted_shed.file_of_file stands)
      rcases writeArchive_spec settings profile valid some_shard vacant yields with
        ⟨reason, refused⟩ | ⟨tiles, makes, counts, last, done, written, skipped, shards⟩ |
          ⟨unmade, error, failed⟩
      · refine .device ?_ (show (PipelineError.archive (.device reason)).IsDevice from trivial)
        rw [refused]
        rfl
      · rw [done]
        refine .complete makes rfl ⟨?_, written, ?_, shards⟩
        · rw [counters]
          exact holds.counted
        · dsimp only
          omega
      · refine .unmade unmade ⟨error, ?_⟩
        rw [failed]
        rfl

/-- Removing the run's directory takes nothing of the archive. -/
theorem Ended.removeTree {settings : Settings} {site : RunSite}
    {result : Except PipelineError RunSummary} {disk : Disk} (apart : site.Apart)
    (ended : Ended settings profile site.output site.archive features result disk) :
    Ended settings profile site.output site.archive features result
      (disk.removeTree (Path.ofText site.directory)).2 := by
  cases ended with
  | device failed device => exact .device failed device
  | unmade unmade failed => exact .unmade unmade failed
  | complete makes ok complete =>
      refine .complete makes ok { complete with shards := fun index below => ?_ }
      obtain ⟨name, own, other⟩ := apart index below
      exact (Disk.read_removeTree own other).2 (complete.shards index below)

end Pipeline
end TileBindery
