import TileBindery.Pipeline.TileWriting

/-!
# Writing tiles to a sink

Tiles can be handed to anything that takes the calls of an archive.  The tiles of a batch are rendered
at once, so which of several errors a batch ends with is up to the pool that renders it.
-/

namespace TileBindery

/-- What an archive is asked to do. -/
inductive SinkCall where
  | begin (metadata : Metadata)
  | write (tile : RenderedTile)
  | finish (metadata : Metadata)

/-- How something in a state `ω` answers these calls. -/
abbrev TileSink (ω : Type) := SinkCall → ω → Except ArchiveError Unit × ω

/-- A sink that takes a note of every call. -/
def TileSink.recorder : TileSink (List SinkCall) := fun call calls => (.ok (), calls ++ [call])

/-- The calls of an archive that spreads tiles over shards. -/
def ArchiveWriter.sink {σ η : Type} : TileSink (ArchiveWriter σ η × σ)
  | .begin metadata, (writer, world) => writer.begin metadata world
  | .write tile, (writer, world) => writer.write tile.tile tile.data world
  | .finish metadata, (writer, world) =>
      let (result, after) := writer.finish metadata world
      (result.map fun _ => (), after)

/-- How a pool renders the tiles of a batch. -/
structure Rendering {ρ : Type} (profile : Profile ρ) where
  render : List TileFeatures → Except PipelineError (List RenderedTile)
  /-- All tiles come out in order if each of them can be rendered. -/
  render_ok {groups : List TileFeatures} {tiles : List RenderedTile} :
    groups.map profile.renderChecked = tiles.map .ok → render groups = .ok tiles
  /-- Otherwise the error of one of them does. -/
  render_error {groups : List TileFeatures} {failed : TileFeatures} {error : PipelineError} :
    failed ∈ groups → profile.renderChecked failed = .error error →
      ∃ failed ∈ groups, ∃ error, profile.renderChecked failed = .error error ∧
        render groups = .error error

namespace TileSink

variable {ω ρ : Type} {profile : Profile ρ}

/-- Take note of a rendered tile, and write it unless it is left out. -/
def writeOne (sink : TileSink ω) (emitEmptyTiles : Bool) (group : TileFeatures)
    (rendered : RenderedTile) (progress : TileProgress) (state : ω) :
    Except PipelineError TileProgress × ω :=
  let progress := progress.observe group rendered
  if rendered.data.isNone ∧ ¬emitEmptyTiles then (.ok progress.skip, state)
  else
    let (result, state) := sink (.write rendered) state
    match result with
    | .error error => (.error (.archive error), state)
    | .ok () => (.ok progress.wrote, state)

def writeRendered (sink : TileSink ω) (emitEmptyTiles : Bool) :
    List (TileFeatures × RenderedTile) → TileProgress → ω → Except PipelineError TileProgress × ω
  | [], progress, state => (.ok progress, state)
  | (group, rendered) :: rest, progress, state =>
      match writeOne sink emitEmptyTiles group rendered progress state with
      | (.error error, state) => (.error error, state)
      | (.ok progress, state) => writeRendered sink emitEmptyTiles rest progress state

/-- Render groups batch by batch and write their tiles. -/
def writeBatches (sink : TileSink ω) (rendering : Rendering profile) (options : TileOptions)
    (groups : List (Except SortError TileFeatures)) (progress : TileProgress) (state : ω) :
    Except PipelineError TileProgress × ω :=
  match groups with
  | [] => (.ok progress, state)
  | first :: rest =>
      let size := options.batchSize - 1
      match TileWriting.gather (first :: rest.take size) with
      | .error error => (.error error, state)
      | .ok batch =>
          match rendering.render batch with
          | .error error => (.error error, state)
          | .ok tiles =>
              match writeRendered sink options.emitEmptyTiles (batch.zip tiles) progress state with
              | (.error error, state) => (.error error, state)
              | (.ok progress, state) =>
                  writeBatches sink rendering options (rest.drop size) progress state
  termination_by groups.length
  decreasing_by simp only [List.length_cons, List.length_drop]; omega

/-- Render and write groups one at a time. -/
def writeEach (sink : TileSink ω) (profile : Profile ρ) (emitEmptyTiles : Bool) :
    List (Except SortError TileFeatures) → TileProgress → ω → Except PipelineError TileProgress × ω
  | [], progress, state => (.ok progress, state)
  | .error error :: _, _, state => (.error (.sort error), state)
  | .ok group :: rest, progress, state =>
      match profile.renderChecked group with
      | .error error => (.error error, state)
      | .ok rendered =>
          match writeOne sink emitEmptyTiles group rendered progress state with
          | (.error error, state) => (.error error, state)
          | (.ok progress, state) => writeEach sink profile emitEmptyTiles rest progress state

/-- Write tiles between a header and a footer that describes their layers. -/
def enclose (sink : TileSink ω) (metadata : Metadata)
    (write : TileProgress → ω → Except PipelineError TileProgress × ω) (state : ω) :
    Except PipelineError (TileCounts × Metadata) × ω :=
  match sink (.begin metadata) state with
  | (.error error, state) => (.error (.archive error), state)
  | (.ok (), state) =>
      match write .start state with
      | (.error error, state) => (.error error, state)
      | (.ok progress, state) =>
          let footer := progress.layers.complete metadata
          match sink (.finish footer) state with
          | (.error error, state) => (.error (.archive error), state)
          | (.ok (), state) => (.ok (progress.counts, footer), state)

/-- Write a whole archive, rendering tiles in batches. -/
def writeTiles (sink : TileSink ω) (rendering : Rendering profile) (options : TileOptions)
    (groups : List (Except SortError TileFeatures)) (state : ω) :
    Except PipelineError (TileCounts × Metadata) × ω :=
  sink.enclose profile.metadata (sink.writeBatches rendering options groups) state

/-- Write a whole archive, rendering tiles one at a time. -/
def writeSingly (sink : TileSink ω) (profile : Profile ρ) (emitEmptyTiles : Bool)
    (groups : List (Except SortError TileFeatures)) (state : ω) :
    Except PipelineError (TileCounts × Metadata) × ω :=
  sink.enclose profile.metadata (sink.writeEach profile emitEmptyTiles groups) state

end TileSink
end TileBindery
