import TileBindery.Pipeline.TileWriting
import TileBindery.Proofs.Archive.Writers
import TileBindery.Proofs.Lists

/-!
# What writing tiles leaves in an archive

Groups are rendered batch by batch, and the tiles of a batch are written in order.  On a disk nothing
fails then: every shard holds what it has taken before and its tiles behind it, and an archive that is
finished holds a header, tiles and a footer in every shard.
-/

namespace TileBindery

variable {ρ : Type}

/-- A profile makes a tile of a group in a stream that holds no error there. -/
def Profile.Renders (profile : Profile ρ) (item : Except SortError TileFeatures)
    (made : TileFeatures × RenderedTile) : Prop :=
  item = .ok made.1 ∧ profile.render made.1 = .ok made.2 ∧ made.2.tile = made.1.tile

theorem Profile.renderChecked_iff {profile : Profile ρ} {group : TileFeatures}
    {rendered : RenderedTile} :
    profile.renderChecked group = .ok rendered ↔
      profile.render group = .ok rendered ∧ rendered.tile = group.tile := by
  rw [renderChecked]
  cases result : profile.render group with
  | error error => simp
  | ok tile =>
      by_cases same : tile.tile = group.tile
      · simp only [if_pos same, Except.ok.injEq]
        constructor
        · rintro rfl
          exact ⟨rfl, same⟩
        · exact And.left
      · simp only [if_neg same, Except.ok.injEq, reduceCtorEq, false_iff]
        rintro ⟨rfl, own⟩
        exact same own

namespace TileWriting

theorem gather_map_ok (groups : List TileFeatures) : gather (groups.map .ok) = .ok groups := by
  induction groups with
  | nil => rfl
  | cons group rest ih => rw [List.map_cons, gather, ih, Except.map]

theorem eq_of_gather {items : List (Except SortError TileFeatures)} {groups : List TileFeatures}
    (gathered : gather items = .ok groups) : items = groups.map .ok := by
  induction items generalizing groups with
  | nil =>
      cases gathered
      rfl
  | cons item rest ih =>
      cases item with
      | error error => simp [gather] at gathered
      | ok group =>
          rw [gather] at gathered
          cases behind : gather rest with
          | error error => simp [behind, Except.map] at gathered
          | ok others =>
              rw [behind] at gathered
              cases gathered
              rw [List.map_cons, ih behind]

theorem renderAll_iff {profile : Profile ρ} {groups : List TileFeatures}
    {rendered : List (TileFeatures × RenderedTile)} :
    renderAll profile groups = .ok rendered ↔
      List.Forall₂ profile.Renders (groups.map .ok) rendered := by
  induction groups generalizing rendered with
  | nil => cases rendered <;> simp [renderAll]
  | cons group rest ih =>
      rw [renderAll, List.map_cons]
      constructor
      · intro done
        cases checked : profile.renderChecked group with
        | error error => simp [checked] at done
        | ok tile =>
            cases behind : renderAll profile rest with
            | error error => simp [checked, behind, Except.map] at done
            | ok others =>
                simp only [checked, behind, Except.map, Except.ok.injEq] at done
                subst done
                exact .cons ⟨rfl, Profile.renderChecked_iff.1 checked⟩ (ih.1 behind)
      · intro all
        cases all with
        | @cons _ made _ others first behind =>
            obtain ⟨same, tile⟩ := first
            cases same
            simp only [Profile.renderChecked_iff.2 tile, ih.2 behind, Except.map]

theorem forall₂_renders_iff {profile : Profile ρ} {items : List (Except SortError TileFeatures)}
    {rendered : List (TileFeatures × RenderedTile)} :
    List.Forall₂ profile.Renders items rendered ↔
      items = (rendered.map (·.1)).map .ok ∧
        ∀ made ∈ rendered, profile.render made.1 = .ok made.2 ∧ made.2.tile = made.1.tile := by
  induction rendered generalizing items with
  | nil => simp
  | cons made rest ih =>
      rw [List.forall₂_cons_right_iff, List.map_cons, List.map_cons, List.forall_mem_cons]
      constructor
      · rintro ⟨_, others, ⟨rfl, own⟩, behind, rfl⟩
        obtain ⟨rfl, each⟩ := ih.1 behind
        exact ⟨rfl, own, each⟩
      · rintro ⟨rfl, own, each⟩
        exact ⟨_, _, ⟨rfl, own⟩, ih.2 ⟨rfl, each⟩, rfl⟩

/-- A batch is rendered exactly if it holds no error and each of its groups can be rendered. -/
theorem renderBatch_iff {profile : Profile ρ} {items : List (Except SortError TileFeatures)}
    {rendered : List (TileFeatures × RenderedTile)} :
    renderBatch profile items = .ok rendered ↔ List.Forall₂ profile.Renders items rendered := by
  rw [renderBatch]
  constructor
  · intro done
    cases gathered : gather items with
    | error error => simp [gathered] at done
    | ok groups =>
        rw [eq_of_gather gathered]
        rw [gathered] at done
        exact renderAll_iff.1 done
  · intro all
    have items_ok := (forall₂_renders_iff.1 all).1
    rw [items_ok, gather_map_ok]
    rw [items_ok] at all
    exact renderAll_iff.2 all

/-! ### Tiles that are written -/

/-- The tiles that are not left out. -/
def kept (emitEmptyTiles : Bool) (tiles : List RenderedTile) : List RenderedTile :=
  tiles.filter fun tile => tile.data.isSome || emitEmptyTiles

theorem kept_of_out {emitEmptyTiles : Bool} {tile : RenderedTile}
    (out : tile.data.isNone ∧ ¬emitEmptyTiles) : kept emitEmptyTiles [tile] = [] := by
  simpa [kept, Option.isNone_iff_eq_none] using out

theorem kept_of_not_out {emitEmptyTiles : Bool} {tile : RenderedTile}
    (stays : ¬(tile.data.isNone ∧ ¬emitEmptyTiles)) : kept emitEmptyTiles [tile] = [tile] := by
  apply List.filter_cons_of_pos
  cases data : tile.data with
  | none => simpa [data] using stays
  | some octets => simp

/-- What a shard holds of tiles: those that are routed to it, in order. -/
def shardOctets (config : ArchiveConfig) (tiles : List RenderedTile) (index : Nat) : Bytes :=
  (tiles.filter fun tile => Routing.shardOf tile.tile.id config.shards = index).flatMap fun tile =>
    (config.tilePieces tile.tile tile.data).flatten

@[simp]
theorem shardOctets_nil (config : ArchiveConfig) (index : Nat) : shardOctets config [] index = [] :=
  rfl

theorem shardOctets_cons (config : ArchiveConfig) (tile : RenderedTile) (rest : List RenderedTile)
    (index : Nat) :
    shardOctets config (tile :: rest) index =
      (if Routing.shardOf tile.tile.id config.shards = index then
        (config.tilePieces tile.tile tile.data).flatten else []) ++
        shardOctets config rest index := by
  by_cases routed : Routing.shardOf tile.tile.id config.shards = index
  · simp [shardOctets, routed]
  · simp [shardOctets, routed]

theorem shardOctets_append (config : ArchiveConfig) (front back : List RenderedTile)
    (index : Nat) :
    shardOctets config (front ++ back) index =
      shardOctets config front index ++ shardOctets config back index := by
  rw [shardOctets, List.filter_append, List.flatMap_append, shardOctets, shardOctets]

/-- The layers of all tiles, also of those that are left out. -/
def layersOf (tiles : List RenderedTile) (layers : LayerStats) : LayerStats :=
  tiles.foldl (fun layers tile =>
    tile.layers.elim layers (layers.accept (UInt8.ofNat tile.tile.z))) layers

/-- What is known once some more tiles have been rendered. -/
structure Passed (emitEmptyTiles : Bool) (tiles : List RenderedTile)
    (progress after : TileProgress) : Prop where
  /-- Tiles that are not left out have been written. -/
  written : after.counts.written = progress.counts.written + (kept emitEmptyTiles tiles).length
  /-- The others have been counted. -/
  skipped : after.counts.skipped + (kept emitEmptyTiles tiles).length =
    progress.counts.skipped + tiles.length
  /-- The layers of all have been noted. -/
  layers : after.layers = layersOf tiles progress.layers

theorem Passed.trans {emitEmptyTiles : Bool} {front back : List RenderedTile}
    {progress middle after : TileProgress} (first : Passed emitEmptyTiles front progress middle)
    (second : Passed emitEmptyTiles back middle after) :
    Passed emitEmptyTiles (front ++ back) progress after where
  written := by
    rw [second.written, first.written, kept, kept, kept, List.filter_append, List.length_append,
      Nat.add_assoc]
  skipped := by
    have done := first.skipped
    have last := second.skipped
    rw [kept, List.filter_append, List.length_append, List.length_append]
    unfold kept at done last
    omega
  layers := by rw [second.layers, first.layers, layersOf, layersOf, layersOf, List.foldl_append]

/-- A tile is left out: it has no data, and empty tiles are not emitted. -/
theorem Passed.skip {emitEmptyTiles : Bool} {tile : RenderedTile}
    (out : kept emitEmptyTiles [tile] = []) (group : TileFeatures) (progress : TileProgress) :
    Passed emitEmptyTiles [tile] progress (progress.observe group tile).skip where
  written := by
    rw [out]
    rfl
  skipped := by
    rw [out]
    rfl
  layers := rfl

theorem Passed.wrote {emitEmptyTiles : Bool} {tile : RenderedTile}
    (out : kept emitEmptyTiles [tile] = [tile]) (group : TileFeatures) (progress : TileProgress) :
    Passed emitEmptyTiles [tile] progress (progress.observe group tile).wrote where
  written := by
    rw [out]
    rfl
  skipped := by
    rw [out]
    rfl
  layers := rfl

variable {config : ArchiveConfig} {base : String} {start : Nat} {text : Nat → Bytes}
  {disk : Disk} {writer : ArchiveWriter Disk OpenFile}

open ArchiveWriter

/-- What an archive holds once some more tiles have been written to it. -/
structure Wrote (config : ArchiveConfig) (base : String) (start : Nat) (text : Nat → Bytes)
    (emitEmptyTiles : Bool) (tiles : List RenderedTile) (progress : TileProgress)
    (outcome : Outcome Disk OpenFile TileProgress) : Prop where
  /-- Nothing has failed, and all tiles have been counted. -/
  ok : ∃ after, outcome.1 = .ok after ∧ Passed emitEmptyTiles tiles progress after
  /-- The tiles that are not left out lie in their shards. -/
  holds : outcome.2.1.Holds config base start
    (fun index => text index ++ shardOctets config (kept emitEmptyTiles tiles) index) outcome.2.2

theorem kept_append (emitEmptyTiles : Bool) (front back : List RenderedTile) :
    kept emitEmptyTiles (front ++ back) = kept emitEmptyTiles front ++ kept emitEmptyTiles back :=
  List.filter_append _ _

/-- Tiles behind tiles. -/
theorem Wrote.after {emitEmptyTiles : Bool} {front back : List RenderedTile}
    {progress middle : TileProgress} {outcome : Outcome Disk OpenFile TileProgress}
    (passed : Passed emitEmptyTiles front progress middle)
    (wrote : Wrote config base start
      (fun index => text index ++ shardOctets config (kept emitEmptyTiles front) index)
      emitEmptyTiles back middle outcome) :
    Wrote config base start text emitEmptyTiles (front ++ back) progress outcome := by
  obtain ⟨⟨last, ok, rest⟩, holds⟩ := wrote
  refine ⟨⟨last, ok, passed.trans rest⟩, ?_⟩
  simpa only [kept_append, shardOctets_append, List.append_assoc] using holds

/-- Rendered tiles are written without fail. -/
theorem wrote_writeRendered (some_shard : 0 < config.shards)
    (holds : writer.Holds config base start text disk) (emitEmptyTiles : Bool)
    (rendered : List (TileFeatures × RenderedTile)) (progress : TileProgress) :
    Wrote config base start text emitEmptyTiles (rendered.map (·.2)) progress
      (writeRendered emitEmptyTiles rendered progress writer disk) := by
  induction rendered generalizing progress writer disk text with
  | nil =>
      rw [writeRendered]
      refine ⟨⟨progress, rfl, rfl, rfl, rfl⟩, ?_⟩
      simpa only [List.map_nil, kept, List.filter_nil, shardOctets_nil, List.append_nil] using holds
  | cons made rest ih =>
      obtain ⟨group, tile⟩ := made
      rw [writeRendered, List.map_cons, ← List.singleton_append]
      by_cases out : tile.data.isNone ∧ ¬emitEmptyTiles
      · have none_kept := kept_of_out out
        rw [if_pos out]
        refine .after (.skip none_kept group progress) (ih ?_ _)
        simpa only [none_kept, shardOctets_nil, List.append_nil] using holds
      · have own_kept := kept_of_not_out out
        obtain ⟨next, behind, done, after⟩ := holds.write some_shard tile.tile tile.data
        rw [if_neg out]
        simp only [done]
        refine .after (.wrote own_kept group progress) (ih ?_ _)
        simpa only [own_kept, shardOctets_cons, shardOctets_nil, List.append_nil] using after

/-! ### Whole archives -/

/-- The contents of a shard's file: header, tiles and footer. -/
def archiveOctets (config : ArchiveConfig) (metadata : Metadata) (emitEmptyTiles : Bool)
    (tiles : List RenderedTile) (index : Nat) : Bytes :=
  (config.headerPieces metadata).flatten ++
    shardOctets config (kept emitEmptyTiles tiles) index ++
    (config.footerPieces ((layersOf tiles .empty).complete metadata)).flatten

/-- What an archive is once it has been finished. -/
structure Archived (config : ArchiveConfig) (base : String) (metadata : Metadata)
    (emitEmptyTiles : Bool) (tiles : List RenderedTile)
    (outcome : Outcome Disk OpenFile (TileCounts × Metadata)) : Prop where
  /-- Nothing has failed, and all tiles have been counted. -/
  ok : ∃ counts footer, outcome.1 = .ok (counts, footer) ∧
    counts.written = (kept emitEmptyTiles tiles).length ∧
    counts.skipped + (kept emitEmptyTiles tiles).length = tiles.length
  /-- Every shard's file holds its part. -/
  shards : ∀ index < config.shards,
    outcome.2.2.read (Path.ofText (Routing.shardPath base index)) =
      .ok (archiveOctets config metadata emitEmptyTiles tiles index)
  /-- Nothing is left to be released. -/
  released : ∀ world, outcome.2.1.release world = world

/-- Finishing an archive behind its tiles leaves header, tiles and footer in every shard. -/
theorem archived_finish {profile : Profile ρ} {emitEmptyTiles : Bool} {tiles : List RenderedTile}
    {progress : TileProgress} (passed : Passed emitEmptyTiles tiles .start progress)
    (holds : writer.Holds config base start (fun index =>
      (config.headerPieces profile.metadata).flatten ++
        shardOctets config (kept emitEmptyTiles tiles) index) disk) :
    ∃ files closed last,
      writer.finish (progress.layers.complete profile.metadata) disk = (.ok files, closed, last) ∧
      Archived config base profile.metadata emitEmptyTiles tiles
        (.ok (progress.counts, progress.layers.complete profile.metadata), closed, last) := by
  obtain ⟨files, closed, last, finished, released, found⟩ :=
    holds.finish (progress.layers.complete profile.metadata)
  refine ⟨files, closed, last, finished, ⟨progress.counts, _, rfl, ?_, ?_⟩, ?_, released⟩
  · rw [passed.written]
    exact Nat.zero_add _
  · rw [passed.skipped]
    exact Nat.zero_add _
  · intro index below
    rw [found index below, passed.layers]
    rfl

end TileWriting
end TileBindery
