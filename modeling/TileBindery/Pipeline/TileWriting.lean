import TileBindery.Archive.Writer
import TileBindery.Grouping
import TileBindery.Metadata.LayerStats
import TileBindery.Pipeline.Profile

/-!
# Writing tiles

Groups of features are taken in batches.  All tiles of a batch are rendered before any of them is
written, so a batch that holds an error writes nothing.  The archive ends with a footer that
describes the layers of all rendered tiles.
-/

namespace TileBindery

/-- Totals of the tiles of an archive. -/
structure TileCounts where
  written : Nat
  /-- Tiles left out for having no data. -/
  skipped : Nat
  features : Nat
  deriving DecidableEq, Repr

/-- What is known of the tiles rendered so far. -/
structure TileProgress where
  counts : TileCounts
  layers : LayerStats

namespace TileProgress

def start : TileProgress := ⟨⟨0, 0, 0⟩, .empty⟩

/-- Take note of a rendered tile before it is written or left out. -/
def observe (progress : TileProgress) (group : TileFeatures) (rendered : RenderedTile) :
    TileProgress where
  counts := { progress.counts with features := progress.counts.features + group.features.length }
  layers :=
    rendered.layers.elim progress.layers (progress.layers.accept (UInt8.ofNat rendered.tile.z))

def skip (progress : TileProgress) : TileProgress :=
  { progress with counts := { progress.counts with skipped := progress.counts.skipped + 1 } }

/-- Count a tile that has been written. -/
def wrote (progress : TileProgress) : TileProgress :=
  { progress with counts := { progress.counts with written := progress.counts.written + 1 } }

end TileProgress

structure TileOptions where
  /-- Tiles rendered at once, at least one. -/
  batchSize : Nat
  emitEmptyTiles : Bool
  deriving DecidableEq, Repr

namespace TileWriting

variable {σ η ρ : Type}

/-- The result of an operation with the writer and the world it leaves behind. -/
abbrev Outcome (σ η α : Type) := Except PipelineError α × ArchiveWriter σ η × σ

/-- Take a batch of groups, unless one of them is an error. -/
def gather : List (Except SortError TileFeatures) → Except PipelineError (List TileFeatures)
  | [] => .ok []
  | .error error :: _ => .error (.sort error)
  | .ok group :: rest => (gather rest).map (group :: ·)

/-- Render the tiles of a batch in order. -/
def renderAll (profile : Profile ρ) :
    List TileFeatures → Except PipelineError (List (TileFeatures × RenderedTile))
  | [] => .ok []
  | group :: rest =>
      match profile.renderChecked group with
      | .error error => .error error
      | .ok rendered => (renderAll profile rest).map ((group, rendered) :: ·)

/-- Take a batch of groups and render its tiles. -/
def renderBatch (profile : Profile ρ) (batch : List (Except SortError TileFeatures)) :
    Except PipelineError (List (TileFeatures × RenderedTile)) :=
  match gather batch with
  | .error error => .error error
  | .ok groups => renderAll profile groups

def writeRendered (emitEmptyTiles : Bool) :
    List (TileFeatures × RenderedTile) → TileProgress → ArchiveWriter σ η → σ →
      Outcome σ η TileProgress
  | [], progress, writer, world => (.ok progress, writer, world)
  | (group, rendered) :: rest, progress, writer, world =>
      let progress := progress.observe group rendered
      if rendered.data.isNone ∧ ¬emitEmptyTiles then
        writeRendered emitEmptyTiles rest progress.skip writer world
      else
        match writer.write rendered.tile rendered.data world with
        | (.error error, writer, world) => (.error (.archive error), writer, world)
        | (.ok (), writer, world) =>
            writeRendered emitEmptyTiles rest progress.wrote writer world

/-- Render and write groups batch by batch. -/
def writeBatches (profile : Profile ρ) (options : TileOptions)
    (groups : List (Except SortError TileFeatures)) (progress : TileProgress)
    (writer : ArchiveWriter σ η) (world : σ) : Outcome σ η TileProgress :=
  match groups with
  | [] => (.ok progress, writer, world)
  | first :: rest =>
      let size := options.batchSize - 1
      match renderBatch profile (first :: rest.take size) with
      | .error error => (.error error, writer, world)
      | .ok batch =>
          match writeRendered options.emitEmptyTiles batch progress writer world with
          | (.error error, writer, world) => (.error error, writer, world)
          | (.ok progress, writer, world) =>
              writeBatches profile options (rest.drop size) progress writer world
  termination_by groups.length
  decreasing_by simp only [List.length_cons, List.length_drop]; omega

/-- Write a whole archive: header, tiles and footer.  Gives the totals and the metadata of the
footer. -/
def writeTiles (groups : List (Except SortError TileFeatures)) (profile : Profile ρ)
    (options : TileOptions) (writer : ArchiveWriter σ η) (world : σ) :
    Outcome σ η (TileCounts × Metadata) :=
  match writer.begin profile.metadata world with
  | (.error error, writer, world) => (.error (.archive error), writer, world)
  | (.ok (), writer, world) =>
      match writeBatches profile options groups .start writer world with
      | (.error error, writer, world) => (.error error, writer, world)
      | (.ok progress, writer, world) =>
          let metadata := progress.layers.complete profile.metadata
          match writer.finish metadata world with
          | (.error error, writer, world) => (.error (.archive error), writer, world)
          | (.ok _, writer, world) => (.ok (progress.counts, metadata), writer, world)

end TileWriting
end TileBindery
