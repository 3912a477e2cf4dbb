import TileBindery.Binary64.Shortest
import TileBindery.TextMap

/-!
# Archive metadata

The descriptive record at the head and the foot of an archive.  Every field may be absent, and an
absent field differs from an empty one.
-/

namespace TileBindery

structure Envelope where
  minX : Binary64
  minY : Binary64
  maxX : Binary64
  maxY : Binary64
  deriving DecidableEq, Repr, Inhabited

namespace Envelope

/-- The whole world in degrees, cut off at the latitudes ±85.05112878. -/
def world : Envelope where
  minX := .ofRatio true 180 1
  minY := .ofRatio true 8505112878 100000000
  maxX := .ofRatio false 180 1
  maxY := .ofRatio false 8505112878 100000000

/-- A lower edge exceeds the upper edge across from it. -/
def isInverted (box : Envelope) : Bool := box.minX.exceeds box.maxX || box.minY.exceeds box.maxY

def text (box : Envelope) : String :=
  "Envelope \x7b min_x: " ++ box.minX.messageText ++ ", min_y: " ++ box.minY.messageText ++
    ", max_x: " ++ box.maxX.messageText ++ ", max_y: " ++ box.maxY.messageText ++ " \x7d"

end Envelope

structure Center where
  x : Binary64
  y : Binary64
  deriving DecidableEq, Repr, Inhabited

/-- The type of a layer's attribute. -/
inductive FieldType where
  | number
  | boolean
  /-- Texts, and attributes of mixed type. -/
  | string
  deriving DecidableEq, Repr, Inhabited

namespace FieldType

/-- The common type of two observations of one attribute. -/
def join (a b : FieldType) : FieldType := if a = b then a else .string

end FieldType

structure VectorLayer where
  id : String
  /-- Types of the attributes by name. -/
  fields : TextMap FieldType
  description : Option String
  /-- Least zoom at which the layer appears. -/
  minZoom : Option Int32
  /-- Greatest zoom at which the layer appears. -/
  maxZoom : Option Int32
  deriving DecidableEq, Repr, Inhabited

/-- The descriptive record of an archive. -/
structure Metadata where
  name : Option String
  description : Option String
  /-- Credits to show with the map. -/
  attribution : Option String
  version : Option String
  kind : Option String
  format : Option String
  bounds : Option Envelope
  center : Option Center
  zoom : Option Binary64
  minZoom : Option Int32
  maxZoom : Option Int32
  /-- Schemas of the vector layers. -/
  vectorLayers : Option (List VectorLayer)
  others : Option (TextMap String)
  deriving DecidableEq, Repr, Inhabited

namespace Metadata

def empty : Metadata := ⟨none, none, none, none, none, none, none, none, none, none, none, none, none⟩

end Metadata

/-- Reasons why metadata contradicts itself. -/
inductive MetadataError where
  /-- The least zoom lies above the greatest. -/
  | invertedZooms (least greatest : Int32)
  /-- A lower edge of the bounds exceeds the upper one. -/
  | invertedBounds (box : Envelope)
  /-- A vector layer has an empty identifier. -/
  | unnamedLayer
  deriving DecidableEq, Repr

/-- The wording of a metadata error. -/
def MetadataError.message : MetadataError → String
  | .invertedZooms least greatest =>
      "Invalid metadata: min_zoom " ++ toString least.toInt ++ " > max_zoom " ++
        toString greatest.toInt
  | .invertedBounds box => "Invalid metadata: inverted bounds " ++ box.text
  | .unnamedLayer => "Invalid metadata: vector layer with empty id"

namespace Metadata

/-- Whether the zoom range is inverted. -/
def zoomFault? (metadata : Metadata) : Option MetadataError :=
  match metadata.minZoom, metadata.maxZoom with
  | some least, some greatest =>
      if greatest < least then some (.invertedZooms least greatest) else none
  | _, _ => none

/-- Whether the bounds are inverted. -/
def boundsFault? (metadata : Metadata) : Option MetadataError :=
  metadata.bounds.bind fun box => if box.isInverted then some (.invertedBounds box) else none

/-- Whether a layer has no identifier. -/
def layersFault? (metadata : Metadata) : Option MetadataError :=
  metadata.vectorLayers.bind fun layers =>
    if layers.any (·.id.isEmpty) then some .unnamedLayer else none

/-- The first contradiction in the metadata: zooms, then bounds, then layers. -/
def fault? (metadata : Metadata) : Option MetadataError :=
  metadata.zoomFault?.or (metadata.boundsFault?.or metadata.layersFault?)

end Metadata
end TileBindery
