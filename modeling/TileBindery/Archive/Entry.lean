import TileBindery.Archive.Error
import TileBindery.Metadata.Basic

/-!
# Entries of a binary archive

A binary archive is a header, any number of tiles and a footer.  The records of this module hold
exactly what the entries can say: lists and maps have no absence of their own, and attribute types
are numbers of which only three mean something.
-/

namespace TileBindery

/-- A vector layer as an entry holds it. -/
structure LayerRecord where
  id : String
  /-- Type numbers of the attributes by name. -/
  fields : TextMap Int32
  description : Option String
  minZoom : Option Int32
  maxZoom : Option Int32
  deriving DecidableEq, Repr, Inhabited

structure MetadataRecord where
  name : Option String
  description : Option String
  /-- Credits to show with the map. -/
  attribution : Option String
  version : Option String
  kind : Option String
  format : Option String
  bounds : Option Envelope
  center : Option Center
  zoom : Option Binary64
  minZoom : Option Int32
  maxZoom : Option Int32
  /-- Schemas of the vector layers. -/
  vectorLayers : List LayerRecord
  others : TextMap String
  deriving DecidableEq, Repr, Inhabited

structure TileRecord where
  x : Int32
  y : Int32
  z : Int32
  /-- The tile's octets, empty for a tile without data. -/
  data : Bytes
  deriving DecidableEq, Repr, Inhabited

inductive ArchiveEntry where
  | blank
  | tile (record : TileRecord)
  /-- The header, with the metadata known before any tile. -/
  | header (metadata : Option MetadataRecord)
  /-- The footer, with the final metadata. -/
  | footer (metadata : Option MetadataRecord)
  deriving DecidableEq, Repr

namespace FieldType

/-- The number of an attribute type. -/
def code : FieldType → Int32
  | .number => 1
  | .boolean => 2
  | .string => 3

/-- The attribute type of a number. -/
def ofCode? (code : Int32) : Option FieldType :=
  if code = 1 then some .number
  else if code = 2 then some .boolean
  else if code = 3 then some .string
  else none

theorem ofCode?_code (type : FieldType) : ofCode? type.code = some type := by
  cases type <;> decide

end FieldType

namespace LayerRecord

def empty : LayerRecord := ⟨"", .empty, none, none, none⟩

def ofLayer (layer : VectorLayer) : LayerRecord where
  id := layer.id
  fields := layer.fields.mapValues FieldType.code
  description := layer.description
  minZoom := layer.minZoom
  maxZoom := layer.maxZoom

/-- The types of attributes, refused at the first number, in order of the names, that means
nothing. -/
def fieldTypes (layer : String) : List (String × Int32) → Except DecodeError (List (String × FieldType))
  | [] => .ok []
  | (field, code) :: rest =>
      match FieldType.ofCode? code with
      | none => .error (.unknownFieldType layer field code)
      | some type => (fieldTypes layer rest).map ((field, type) :: ·)

def toLayer (record : LayerRecord) : Except DecodeError VectorLayer :=
  (fieldTypes record.id record.fields.entries).map fun fields =>
    { id := record.id
      fields := .ofList fields
      description := record.description
      minZoom := record.minZoom
      maxZoom := record.maxZoom }

end LayerRecord

namespace MetadataRecord

def empty : MetadataRecord :=
  ⟨none, none, none, none, none, none, none, none, none, none, none, [], .empty⟩

/-- The record of metadata.  Absent lists and maps become empty ones. -/
def ofMetadata (metadata : Metadata) : MetadataRecord where
  name := metadata.name
  description := metadata.description
  attribution := metadata.attribution
  version := metadata.version
  kind := metadata.kind
  format := metadata.format
  bounds := metadata.bounds
  center := metadata.center
  zoom := metadata.zoom
  minZoom := metadata.minZoom
  maxZoom := metadata.maxZoom
  vectorLayers := (metadata.vectorLayers.getD []).map LayerRecord.ofLayer
  others := metadata.others.getD .empty

/-- The layers of records, refused at the first one with an unknown attribute type. -/
def layers : List LayerRecord → Except DecodeError (List VectorLayer)
  | [] => .ok []
  | record :: rest =>
      match record.toLayer with
      | .error error => .error error
      | .ok layer => (layers rest).map (layer :: ·)

/-- The metadata of a record.  Empty lists and maps become absent ones. -/
def toMetadata (record : MetadataRecord) : Except DecodeError Metadata :=
  (layers record.vectorLayers).map fun vectorLayers =>
    { name := record.name
      description := record.description
      attribution := record.attribution
      version := record.version
      kind := record.kind
      format := record.format
      bounds := record.bounds
      center := record.center
      zoom := record.zoom
      minZoom := record.minZoom
      maxZoom := record.maxZoom
      vectorLayers := if vectorLayers.isEmpty then none else some vectorLayers
      others := if record.others.isEmpty then none else some record.others }

end MetadataRecord

namespace TileRecord

def empty : TileRecord := ⟨0, 0, 0, []⟩

def ofTile (tile : Tile) (data : Option Bytes) : TileRecord :=
  ⟨Int32.ofNat tile.x, Int32.ofNat tile.y, Int32.ofNat tile.z, data.getD []⟩

end TileRecord

namespace ArchiveEntry

def ofHeader (metadata : Metadata) : ArchiveEntry := .header (some (.ofMetadata metadata))

def ofTile (tile : Tile) (data : Option Bytes) : ArchiveEntry := .tile (.ofTile tile data)

def ofFooter (metadata : Metadata) : ArchiveEntry := .footer (some (.ofMetadata metadata))

end ArchiveEntry
end TileBindery
