import TileBindery.Archive.Entry

/-!
# Wire format of entries

Every record of an entry is written as fields in ascending order of their numbers and read in any
order.  A field that may be absent is written whenever it is present; any other scalar is written
only when it differs from its default.  When a field comes twice, scalars take the last value,
messages merge, lists grow and maps replace.
-/

namespace TileBindery

open Wire

namespace EntryFormat

/-! ## Writing -/

def put (field : Nat) (type : ValueType) (value : Bytes) : Bytes := putKey field type ++ value

def putOption {α : Type} (field : Nat) (type : ValueType) (value : α → Bytes) : Option α → Bytes
  | none => []
  | some item => put field type (value item)

/-- A double that is left out when it is zero of either sign. -/
def putNonzeroDouble (field : Nat) (value : Binary64) : Bytes :=
  if value.isZero then [] else put field .fixed64 (putDouble value)

/-- An integer that is left out when it is zero. -/
def putNonzero (field : Nat) (value : Int32) : Bytes :=
  if value = 0 then [] else put field .varint (putInt32 value)

/-- A text that is left out when it is empty. -/
def putNonempty (field : Nat) (text : String) : Bytes :=
  if text = "" then [] else put field .delimited (putText text)

def putMessage (field : Nat) (message : Bytes) : Bytes := put field .delimited (putBytes message)

/-- A map as one field for each of its entries. -/
def putMap {α : Type} (field : Nat) (value : α → Bytes) (map : TextMap α) : Bytes :=
  map.entries.flatMap fun entry => putMessage field (putNonempty 1 entry.1 ++ value entry.2)

def putEnvelope (box : Envelope) : Bytes :=
  putNonzeroDouble 1 box.minX ++ putNonzeroDouble 2 box.maxX ++
    putNonzeroDouble 3 box.minY ++ putNonzeroDouble 4 box.maxY

def putCenter (center : Center) : Bytes :=
  putNonzeroDouble 1 center.x ++ putNonzeroDouble 2 center.y

def putLayer (layer : LayerRecord) : Bytes :=
  putNonempty 1 layer.id ++
    putMap 2 (putNonzero 2) layer.fields ++
    putOption 3 .delimited putText layer.description ++
    putOption 4 .varint putInt32 layer.minZoom ++
    putOption 5 .varint putInt32 layer.maxZoom

def putMetadata (metadata : MetadataRecord) : Bytes :=
  putOption 1 .delimited putText metadata.name ++
    putOption 2 .delimited putText metadata.description ++
    putOption 3 .delimited putText metadata.attribution ++
    putOption 4 .delimited putText metadata.version ++
    putOption 5 .delimited putText metadata.kind ++
    putOption 6 .delimited putText metadata.format ++
    putOption 7 .delimited (fun box => putBytes (putEnvelope box)) metadata.bounds ++
    putOption 8 .delimited (fun center => putBytes (putCenter center)) metadata.center ++
    putOption 9 .fixed64 putDouble metadata.zoom ++
    putOption 10 .varint putInt32 metadata.minZoom ++
    putOption 11 .varint putInt32 metadata.maxZoom ++
    metadata.vectorLayers.flatMap (fun layer => putMessage 12 (putLayer layer)) ++
    putMap 13 (putNonempty 2) metadata.others

/-- The fields of a header or a footer. -/
def putFrame (metadata : Option MetadataRecord) : Bytes :=
  putOption 1 .delimited (fun record => putBytes (putMetadata record)) metadata

def putTile (tile : TileRecord) : Bytes :=
  putNonzero 1 tile.x ++ putNonzero 2 tile.y ++ putNonzero 3 tile.z ++
    if tile.data.isEmpty then [] else put 4 .delimited (putBytes tile.data)

def putEntry : ArchiveEntry → Bytes
  | .blank => []
  | .tile record => putMessage 1 (putTile record)
  | .header metadata => putMessage 2 (putFrame metadata)
  | .footer metadata => putMessage 3 (putFrame metadata)

/-- An entry of the stream: its length and its octets. -/
def frame (entry : ArchiveEntry) : Bytes := putBytes (putEntry entry)

/-! ## Reading -/

def envelopeField (depth : Nat) (key : Key) (box : Envelope) : Reader Envelope :=
  match key.field with
  | 1 => within "Envelope.min_x" do return { box with minX := ← readDouble key.type }
  | 2 => within "Envelope.max_x" do return { box with maxX := ← readDouble key.type }
  | 3 => within "Envelope.min_y" do return { box with minY := ← readDouble key.type }
  | 4 => within "Envelope.max_y" do return { box with maxY := ← readDouble key.type }
  | _ => do
      skipValue depth key
      return box

def centerField (depth : Nat) (key : Key) (center : Center) : Reader Center :=
  match key.field with
  | 1 => within "CoordinateXy.x" do return { center with x := ← readDouble key.type }
  | 2 => within "CoordinateXy.y" do return { center with y := ← readDouble key.type }
  | _ => do
      skipValue depth key
      return center

def layerField (depth : Nat) (key : Key) (layer : LayerRecord) : Reader LayerRecord :=
  match key.field with
  | 1 => within "VectorLayer.id" do return { layer with id := ← readText key.type }
  | 2 => within "VectorLayer.fields" do
      let entry ← readEntry readInt32 0 depth
      return { layer with fields := layer.fields.insert entry.1 entry.2 }
  | 3 => within "VectorLayer.description" do
      return { layer with description := some (← readText key.type) }
  | 4 => within "VectorLayer.min_zoom" do
      return { layer with minZoom := some (← readInt32 key.type) }
  | 5 => within "VectorLayer.max_zoom" do
      return { layer with maxZoom := some (← readInt32 key.type) }
  | _ => do
      skipValue depth key
      return layer

/-- The envelope that the fields of an absent one are merged into. -/
def blankEnvelope : Envelope := ⟨.zero, .zero, .zero, .zero⟩

/-- The center that the fields of an absent one are merged into. -/
def blankCenter : Center := ⟨.zero, .zero⟩

def metadataField (depth : Nat) (key : Key) (metadata : MetadataRecord) :
    Reader MetadataRecord :=
  match key.field with
  | 1 => within "Metadata.name" do return { metadata with name := some (← readText key.type) }
  | 2 => within "Metadata.description" do
      return { metadata with description := some (← readText key.type) }
  | 3 => within "Metadata.attribution" do
      return { metadata with attribution := some (← readText key.type) }
  | 4 => within "Metadata.version" do
      return { metadata with version := some (← readText key.type) }
  | 5 => within "Metadata.r#type" do return { metadata with kind := some (← readText key.type) }
  | 6 => within "Metadata.format" do
      return { metadata with format := some (← readText key.type) }
  | 7 => within "Metadata.bounds" do
      let box ← readMessage envelopeField depth key.type (metadata.bounds.getD blankEnvelope)
      return { metadata with bounds := some box }
  | 8 => within "Metadata.center" do
      let center ← readMessage centerField depth key.type (metadata.center.getD blankCenter)
      return { metadata with center := some center }
  | 9 => within "Metadata.zoom" do
      return { metadata with zoom := some (← readDouble key.type) }
  | 10 => within "Metadata.min_zoom" do
      return { metadata with minZoom := some (← readInt32 key.type) }
  | 11 => within "Metadata.max_zoom" do
      return { metadata with maxZoom := some (← readInt32 key.type) }
  | 12 => within "Metadata.vector_layers" do
      let layer ← readMessage layerField depth key.type LayerRecord.empty
      return { metadata with vectorLayers := metadata.vectorLayers ++ [layer] }
  | 13 => within "Metadata.others" do
      let entry ← readEntry readText "" depth
      return { metadata with others := metadata.others.insert entry.1 entry.2 }
  | _ => do
      skipValue depth key
      return metadata

/-- Read one field of a header or a footer, whose metadata is called `name`. -/
def frameField (name : String) (depth : Nat) (key : Key) (metadata : Option MetadataRecord) :
    Reader (Option MetadataRecord) :=
  match key.field with
  | 1 => within name do
      let record ← readMessage metadataField depth key.type (metadata.getD MetadataRecord.empty)
      return some record
  | _ => do
      skipValue depth key
      return metadata

def tileField (depth : Nat) (key : Key) (tile : TileRecord) : Reader TileRecord :=
  match key.field with
  | 1 => within "TileEntry.x" do return { tile with x := ← readInt32 key.type }
  | 2 => within "TileEntry.y" do return { tile with y := ← readInt32 key.type }
  | 3 => within "TileEntry.z" do return { tile with z := ← readInt32 key.type }
  | 4 => within "TileEntry.encoded_data" do return { tile with data := ← readBytes key.type }
  | _ => do
      skipValue depth key
      return tile

/-- Read one field of an entry.  A part of the entry's own kind merges, any other replaces it. -/
def entryField (depth : Nat) (key : Key) (entry : ArchiveEntry) : Reader ArchiveEntry :=
  match key.field with
  | 1 => within "Entry.entry" do
      let old := match entry with
        | .tile record => record
        | _ => TileRecord.empty
      return .tile (← readMessage tileField depth key.type old)
  | 2 => within "Entry.entry" do
      let old := match entry with
        | .header metadata => metadata
        | _ => none
      return .header (← readMessage (frameField "InitializationEntry.metadata") depth key.type old)
  | 3 => within "Entry.entry" do
      let old := match entry with
        | .footer metadata => metadata
        | _ => none
      return .footer (← readMessage (frameField "FinishEntry.metadata") depth key.type old)
  | _ => do
      skipValue depth key
      return entry

def readEntryOctets (octets : Bytes) : Except Fault ArchiveEntry :=
  readWhole entryField ArchiveEntry.blank octets

end EntryFormat
end TileBindery
