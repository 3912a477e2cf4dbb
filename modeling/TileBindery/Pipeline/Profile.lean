import TileBindery.Feature
import TileBindery.Metadata.Basic
import TileBindery.Pipeline.Error

/-!
# Profiles

A profile turns the features of a tile into its data, describes the archive, and chooses the sources
it is fed from.
-/

namespace TileBindery

/-- What a profile makes of a tile. -/
structure RenderedTile where
  tile : Tile
  /-- The data of the tile; nothing for an empty tile. -/
  data : Option Bytes
  /-- The layers in the data, if the profile tells. -/
  layers : Option (List VectorLayer)
  deriving DecidableEq, Repr

/-- A profile that holds resources in a world `σ`. -/
structure Profile (σ : Type) where
  name : String
  /-- Whether the source of a name feeds the profile. -/
  usesSource : String → Bool
  render : TileFeatures → Except TaskError RenderedTile
  /-- What is known of the archive before any tile is rendered. -/
  metadata : Metadata
  /-- Free what is held for the stages, once all of them have run. -/
  release : σ → σ

namespace Profile

variable {σ : Type}

/-- A profile that uses all sources, holds nothing, and knows of the archive only its own name. -/
def ofRenderer (name : String) (render : TileFeatures → Except TaskError RenderedTile) :
    Profile σ where
  name := name
  usesSource := fun _ => true
  render := render
  metadata := { Metadata.empty with name := some name }
  release := id

/-- Render a tile and check that the result is of the same tile. -/
def renderChecked (profile : Profile σ) (group : TileFeatures) :
    Except PipelineError RenderedTile :=
  match profile.render group with
  | .error error => .error (.render group.tile error)
  | .ok rendered =>
      if rendered.tile = group.tile then .ok rendered
      else
        .error (.render group.tile
          (.other ("profile returned tile " ++ rendered.tile.text ++ " instead")))

end Profile
end TileBindery
