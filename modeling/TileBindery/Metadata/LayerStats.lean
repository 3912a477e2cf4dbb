import TileBindery.Metadata.Basic

/-!
# Layer statistics

Rendered tiles report the layers they hold.  The reports are folded into one schema per layer: the
common type of each attribute, the range of zooms and the first description given.
-/

namespace TileBindery

/-- What all reports of one layer add up to. -/
structure LayerSummary where
  /-- Common types of the attributes. -/
  fields : TextMap FieldType
  /-- The first description reported. -/
  description : Option String
  minZoom : Int32
  maxZoom : Int32
  deriving DecidableEq, Repr

namespace LayerSummary

/-- Fold one observed attribute into the types known so far. -/
def observe (fields : TextMap FieldType) (name : String) (type : FieldType) : TextMap FieldType :=
  fields.alter name fun known => (known.map (·.join type)).getD type

/-- Fold one report into the summary of its layer.  A missing bound is the zoom of the tile. -/
def extend (known : Option LayerSummary) (zoom : Int32) (layer : VectorLayer) : LayerSummary :=
  let least := layer.minZoom.getD zoom
  let greatest := layer.maxZoom.getD zoom
  let start := known.getD ⟨.empty, none, least, greatest⟩
  { fields := layer.fields.entries.foldl (fun fields entry => observe fields entry.1 entry.2)
      start.fields
    description := start.description.or layer.description
    minZoom := if least < start.minZoom then least else start.minZoom
    maxZoom := if start.maxZoom < greatest then greatest else start.maxZoom }

def layer (id : String) (summary : LayerSummary) : VectorLayer where
  id := id
  fields := summary.fields
  description := summary.description
  minZoom := some summary.minZoom
  maxZoom := some summary.maxZoom

end LayerSummary

/-- The summaries of all layers reported so far, by identifier. -/
structure LayerStats where
  /-- Summaries by layer identifier. -/
  summaries : TextMap LayerSummary
  deriving DecidableEq, Repr

namespace LayerStats

def empty : LayerStats := ⟨.empty⟩

/-- Fold in the report of one layer by a tile at `zoom`. -/
def acceptLayer (zoom : UInt8) (stats : LayerStats) (layer : VectorLayer) : LayerStats :=
  ⟨stats.summaries.alter layer.id fun known =>
    LayerSummary.extend known (Int32.ofNat zoom.toNat) layer⟩

/-- Fold in the layers reported by one tile at `zoom`. -/
def accept (stats : LayerStats) (zoom : UInt8) (layers : List VectorLayer) : LayerStats :=
  layers.foldl (acceptLayer zoom) stats

/-- Whether no layer has been seen. -/
def isEmpty (stats : LayerStats) : Bool := stats.summaries.isEmpty

/-- The schemas of the layers seen, in ascending order of their identifiers. -/
def vectorLayers (stats : LayerStats) : List VectorLayer :=
  stats.summaries.entries.map fun entry => entry.2.layer entry.1

/-- The metadata for the foot of an archive: the layers seen are filled in unless the metadata
declares its own. -/
def complete (stats : LayerStats) (metadata : Metadata) : Metadata :=
  if metadata.vectorLayers.isNone ∧ ¬stats.isEmpty then
    { metadata with vectorLayers := some stats.vectorLayers }
  else metadata

end LayerStats
end TileBindery
