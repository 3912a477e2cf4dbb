import TileBindery.Proofs.Archive.EntryFields

/-!
# Entries are read as they were written

Every record of an entry is read back from its octets.  Only the sign of a zero among bounds and
centers is lost, as such numbers are left out.  Metadata is read back with its empty lists and maps
absent.
-/

namespace TileBindery

open Wire EntryFormat

/-! ### What is read back -/

/-- An envelope without signs of zeros. -/
def Envelope.plain (box : Envelope) : Envelope :=
  ⟨plainZero box.minX, plainZero box.minY, plainZero box.maxX, plainZero box.maxY⟩

/-- A center without signs of zeros. -/
def Center.plain (center : Center) : Center := ⟨plainZero center.x, plainZero center.y⟩

/-- A record as it is read back. -/
def MetadataRecord.plain (record : MetadataRecord) : MetadataRecord :=
  { record with bounds := record.bounds.map Envelope.plain, center := record.center.map Center.plain }

/-- Metadata as it is read back: empty lists and maps are absent, and zeros have no sign among
bounds and centers. -/
def Metadata.plain (metadata : Metadata) : Metadata :=
  { metadata with
    bounds := metadata.bounds.map Envelope.plain
    center := metadata.center.map Center.plain
    vectorLayers := metadata.vectorLayers.filter fun layers => !layers.isEmpty
    others := metadata.others.filter fun others => !others.isEmpty }

/-- An entry as it is read back. -/
def ArchiveEntry.plain : ArchiveEntry → ArchiveEntry
  | .blank => .blank
  | .tile record => .tile record
  | .header metadata => .header (metadata.map MetadataRecord.plain)
  | .footer metadata => .footer (metadata.map MetadataRecord.plain)

namespace EntryFormat

/-! ### Parts of metadata -/

theorem fields_putEnvelope (box : Envelope) (depth : Nat) :
    Fields (envelopeField depth) (putEnvelope box) blankEnvelope box.plain := by
  have minX := fields_putNonzeroDouble (envelopeField depth) 1 box.minX
    (fun minX => ⟨minX, .zero, .zero, .zero⟩) (by decide) (((reads_putDouble _).map _).within _)
  have maxX := fields_putNonzeroDouble (envelopeField depth) 2 box.maxX
    (fun maxX => ⟨plainZero box.minX, .zero, maxX, .zero⟩) (by decide)
    (((reads_putDouble _).map _).within _)
  have minY := fields_putNonzeroDouble (envelopeField depth) 3 box.minY
    (fun minY => ⟨plainZero box.minX, minY, plainZero box.maxX, .zero⟩) (by decide)
    (((reads_putDouble _).map _).within _)
  have maxY := fields_putNonzeroDouble (envelopeField depth) 4 box.maxY
    (fun maxY => ⟨plainZero box.minX, plainZero box.minY, plainZero box.maxX, maxY⟩) (by decide)
    (((reads_putDouble _).map _).within _)
  exact ((minX.append maxX).append minY).append maxY

theorem fields_putCenter (center : Center) (depth : Nat) :
    Fields (centerField depth) (putCenter center) blankCenter center.plain := by
  have x := fields_putNonzeroDouble (centerField depth) 1 center.x (fun x => ⟨x, .zero⟩)
    (by decide) (((reads_putDouble _).map _).within _)
  have y := fields_putNonzeroDouble (centerField depth) 2 center.y
    (fun y => ⟨plainZero center.x, y⟩) (by decide) (((reads_putDouble _).map _).within _)
  exact x.append y

theorem reads_codeEntry (entry : String × Int32) (depth : Nat) :
    Reads (readEntry readInt32 0 (depth + 1))
      (putBytes (putNonempty 1 entry.1 ++ putNonzero 2 entry.2)) entry := by
  have code := fields_putNonzero (readEntryField readInt32 depth) 2 entry.2
    (fun code => (entry.1, code)) (by decide) ((reads_putInt32 _).map _)
  exact reads_mapEntry entry.1 code

theorem reads_textEntry (entry : String × String) (depth : Nat) :
    Reads (readEntry readText "" (depth + 1))
      (putBytes (putNonempty 1 entry.1 ++ putNonempty 2 entry.2)) entry := by
  have text := fields_putNonempty (readEntryField readText depth) 2 entry.2
    (fun text => (entry.1, text)) (by decide) ((reads_putText _).map _)
  exact reads_mapEntry entry.1 text

theorem fields_putLayer (layer : LayerRecord) (depth : Nat) :
    Fields (layerField (depth + 1)) (putLayer layer) .empty layer := by
  have id := fields_putNonempty (layerField (depth + 1)) 1 layer.id
    (fun id => { LayerRecord.empty with id }) (by decide) (((reads_putText _).map _).within _)
  have fields := fields_putMap (layerField (depth + 1)) 2 (putNonzero 2) layer.fields
    (fun fields => { LayerRecord.empty with id := layer.id, fields }) (by decide)
    fun _ entry => ((reads_codeEntry entry depth).map _).within _
  have description := fields_putOption (layerField (depth + 1)) 3 .delimited putText
    layer.description
    (fun description => ⟨layer.id, layer.fields, description, none, none⟩) (by decide)
    fun _ => ((reads_putText _).map _).within _
  have minZoom := fields_putOption (layerField (depth + 1)) 4 .varint putInt32 layer.minZoom
    (fun minZoom => ⟨layer.id, layer.fields, layer.description, minZoom, none⟩) (by decide)
    fun _ => ((reads_putInt32 _).map _).within _
  have maxZoom := fields_putOption (layerField (depth + 1)) 5 .varint putInt32 layer.maxZoom
    (fun maxZoom => { layer with maxZoom }) (by decide)
    fun _ => ((reads_putInt32 _).map _).within _
  exact (((id.append fields).append description).append minZoom).append maxZoom

/-- The texts of a record of metadata are read into an empty one. -/
theorem fields_putTexts (record : MetadataRecord) (depth : Nat) :
    Fields (metadataField depth)
      (putOption 1 .delimited putText record.name ++
        putOption 2 .delimited putText record.description ++
        putOption 3 .delimited putText record.attribution ++
        putOption 4 .delimited putText record.version ++
        putOption 5 .delimited putText record.kind ++
        putOption 6 .delimited putText record.format)
      .empty
      { record with
        bounds := none, center := none, zoom := none, minZoom := none, maxZoom := none,
        vectorLayers := [], others := .empty } := by
  have name := fields_putOption (metadataField depth) 1 .delimited putText record.name
    (fun name => { MetadataRecord.empty with name }) (by decide)
    fun _ => ((reads_putText _).map _).within _
  have description := fields_putOption (metadataField depth) 2 .delimited putText
    record.description
    (fun description => { MetadataRecord.empty with name := record.name, description })
    (by decide) fun _ => ((reads_putText _).map _).within _
  have attribution := fields_putOption (metadataField depth) 3 .delimited putText
    record.attribution
    (fun attribution => { MetadataRecord.empty with
      name := record.name, description := record.description, attribution })
    (by decide) fun _ => ((reads_putText _).map _).within _
  have version := fields_putOption (metadataField depth) 4 .delimited putText record.version
    (fun version => { MetadataRecord.empty with
      name := record.name, description := record.description, attribution := record.attribution,
      version })
    (by decide) fun _ => ((reads_putText _).map _).within _
  have kind := fields_putOption (metadataField depth) 5 .delimited putText record.kind
    (fun kind => { MetadataRecord.empty with
      name := record.name, description := record.description, attribution := record.attribution,
      version := record.version, kind })
    (by decide) fun _ => ((reads_putText _).map _).within _
  have format := fields_putOption (metadataField depth) 6 .delimited putText record.format
    (fun format => { MetadataRecord.empty with
      name := record.name, description := record.description, attribution := record.attribution,
      version := record.version, kind := record.kind, format })
    (by decide) fun _ => ((reads_putText _).map _).within _
  exact ((((name.append description).append attribution).append version).append kind).append format

/-- A record of metadata is read into an empty one. -/
theorem fields_putMetadata (record : MetadataRecord) (depth : Nat) :
    Fields (metadataField (depth + 2)) (putMetadata record) .empty record.plain := by
  have texts := fields_putTexts record (depth + 2)
  have bounds := fields_putOption (metadataField (depth + 2)) 7 .delimited
    (fun box => putBytes (putEnvelope box)) record.bounds
    (fun bounds => { record with
      bounds := bounds.map Envelope.plain, center := none, zoom := none, minZoom := none,
      maxZoom := none, vectorLayers := [], others := .empty })
    (by decide) fun box => ((fields_putEnvelope box (depth + 1)).readMessage.map _).within _
  have center := fields_putOption (metadataField (depth + 2)) 8 .delimited
    (fun center => putBytes (putCenter center)) record.center
    (fun center => { record.plain with
      center := center.map Center.plain, zoom := none, minZoom := none, maxZoom := none,
      vectorLayers := [], others := .empty })
    (by decide) fun center => ((fields_putCenter center (depth + 1)).readMessage.map _).within _
  have zoom := fields_putOption (metadataField (depth + 2)) 9 .fixed64 putDouble record.zoom
    (fun zoom => { record.plain with
      zoom, minZoom := none, maxZoom := none, vectorLayers := [], others := .empty })
    (by decide) fun _ => ((reads_putDouble _).map _).within _
  have minZoom := fields_putOption (metadataField (depth + 2)) 10 .varint putInt32 record.minZoom
    (fun minZoom => { record.plain with
      minZoom, maxZoom := none, vectorLayers := [], others := .empty })
    (by decide) fun _ => ((reads_putInt32 _).map _).within _
  have maxZoom := fields_putOption (metadataField (depth + 2)) 11 .varint putInt32 record.maxZoom
    (fun maxZoom => { record.plain with maxZoom, vectorLayers := [], others := .empty })
    (by decide) fun _ => ((reads_putInt32 _).map _).within _
  have layers := fields_messages (metadataField (depth + 2)) 12 putLayer record.vectorLayers []
    (fun vectorLayers => { record.plain with vectorLayers, others := .empty })
    (by decide) fun _ layer => ((fields_putLayer layer depth).readMessage.map _).within _
  have others := fields_putMap (metadataField (depth + 2)) 13 (putNonempty 2) record.others
    (fun others => { record.plain with others })
    (by decide) fun _ entry => ((reads_textEntry entry (depth + 1)).map _).within _
  exact ((((((texts.append bounds).append center).append zoom).append minZoom).append
    maxZoom).append layers).append others

/-! ### Entries -/

theorem fields_putFrame (name : String) (metadata : Option MetadataRecord) (depth : Nat) :
    Fields (frameField name (depth + 3)) (putFrame metadata) none
      (metadata.map MetadataRecord.plain) :=
  fields_putOption _ 1 .delimited _ metadata (fun metadata => metadata.map MetadataRecord.plain)
    (by decide) fun record => ((fields_putMetadata record depth).readMessage.map _).within _

theorem fields_putTile (record : TileRecord) (depth : Nat) :
    Fields (tileField depth) (putTile record) .empty record := by
  have x := fields_putNonzero (tileField depth) 1 record.x (fun x => ⟨x, 0, 0, []⟩) (by decide)
    (((reads_putInt32 _).map _).within _)
  have y := fields_putNonzero (tileField depth) 2 record.y (fun y => ⟨record.x, y, 0, []⟩)
    (by decide) (((reads_putInt32 _).map _).within _)
  have z := fields_putNonzero (tileField depth) 3 record.z
    (fun z => ⟨record.x, record.y, z, []⟩) (by decide) (((reads_putInt32 _).map _).within _)
  have data : Fields (tileField depth)
      (if record.data.isEmpty then [] else put 4 .delimited (putBytes record.data))
      ⟨record.x, record.y, record.z, []⟩ record := by
    refine fields_unless ?_ fun _ =>
      .ofKey (by decide) (((reads_putBytes record.data).map _).within _)
    intro none
    rw [← List.isEmpty_iff.1 none]
  exact ((x.append y).append z).append data

theorem fields_putEntry (entry : ArchiveEntry) (depth : Nat) :
    Fields (entryField (depth + 4)) (putEntry entry) .blank entry.plain := by
  cases entry with
  | blank => exact .nil _
  | tile record =>
      exact .ofKey (by decide) (((fields_putTile record (depth + 3)).readMessage.map _).within _)
  | header metadata =>
      exact .ofKey (by decide) (((fields_putFrame _ metadata depth).readMessage.map _).within _)
  | footer metadata =>
      exact .ofKey (by decide) (((fields_putFrame _ metadata depth).readMessage.map _).within _)

/-- The octets of an entry are read as the entry. -/
theorem readEntryOctets_putEntry {entry : ArchiveEntry}
    (small : (putEntry entry).length < 2 ^ 64) :
    readEntryOctets (putEntry entry) = .ok entry.plain :=
  (fields_putEntry entry 96).readWhole small

end EntryFormat

/-! ### Metadata behind records -/

namespace LayerRecord

theorem fieldTypes_code (layer : String) (fields : List (String × FieldType)) :
    fieldTypes layer (fields.map fun entry => (entry.1, entry.2.code)) = .ok fields := by
  induction fields with
  | nil => rfl
  | cons entry rest ih =>
      rw [List.map_cons, fieldTypes, FieldType.ofCode?_code]
      dsimp only
      rw [ih]
      rfl

/-- A layer is the layer of its record. -/
theorem toLayer_ofLayer (layer : VectorLayer) : (ofLayer layer).toLayer = .ok layer := by
  have types : fieldTypes layer.id (layer.fields.mapValues FieldType.code).entries = _ :=
    fieldTypes_code layer.id layer.fields.entries
  simp only [toLayer, ofLayer, types, Except.map, TextMap.ofList_entries]

end LayerRecord

namespace MetadataRecord

theorem layers_ofLayer (given : List VectorLayer) :
    layers (given.map LayerRecord.ofLayer) = .ok given := by
  induction given with
  | nil => rfl
  | cons layer rest ih =>
      rw [List.map_cons, layers, LayerRecord.toLayer_ofLayer]
      dsimp only
      rw [ih]
      rfl

/-- A default in place of an absent value becomes absent again, and so does a given default. -/
theorem present_getD {α : Type} {isEmpty : α → Bool} {empty : α} (none : isEmpty empty)
    (item : Option α) :
    (if isEmpty (item.getD empty) then Option.none else some (item.getD empty)) =
      item.filter fun found => !isEmpty found := by
  cases item with
  | none => rw [Option.getD_none, if_pos none]; rfl
  | some found =>
      rw [Option.getD_some, Option.filter_some]
      cases isEmpty found <;> rfl

/-- The record of metadata that is read back gives it back, up to what entries cannot say. -/
theorem toMetadata_plain (metadata : Metadata) :
    (ofMetadata metadata).plain.toMetadata = .ok metadata.plain := by
  rw [toMetadata]
  simp only [plain, ofMetadata, layers_ofLayer, Except.map, Metadata.plain, Except.ok.injEq,
    Metadata.mk.injEq, true_and]
  exact ⟨present_getD rfl metadata.vectorLayers, present_getD rfl metadata.others⟩

end MetadataRecord
end TileBindery
