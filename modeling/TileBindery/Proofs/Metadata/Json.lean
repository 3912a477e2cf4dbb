import TileBindery.Metadata.Json
import TileBindery.Proofs.Json.Documents
import TileBindery.Proofs.TextMap

/-!
# Metadata is read as it is written

Layers and metadata are written as records: fields in a fixed order, without the absent ones.  The
main statement says that metadata without doubles is read back from its JSON text, so that texts tell
it apart: an absent list or map differs from one without entries.
-/

namespace TileBindery

open JsonReader (Spells Slot)

/-! ### Numbers, maps and optional fields -/

namespace JsonValue

def ofInt32 (n : Int32) : JsonValue := .number (.ofInt n.toInt)

def ofMap {α : Type} (form : α → JsonValue) (map : TextMap α) : JsonValue :=
  .object (map.entries.map fun entry => (some entry.1.toList, form entry.2))

theorem int32?_ofInt32 (n : Int32) : (ofInt32 n).int32? = some n := by
  rw [ofInt32, int32?, integer?_ofInt n.le_toInt (Int.le_sub_one_of_lt n.toInt_lt), Option.map_some,
    Int32.ofInt_toInt]

theorem spells_map {α : Type} {write : α → List Char} {form : α → JsonValue} (map : TextMap α)
    (each : ∀ entry ∈ map.entries, Spells (write entry.2) (form entry.2)) :
    Spells (JsonWriter.map write map) (ofMap form map) := by
  have spelled := Spells.object (map.entries.map fun entry =>
      ⟨entry.1, write entry.2, form entry.2⟩) <| by
    intro found member
    obtain ⟨entry, entry_mem, rfl⟩ := List.mem_map.1 member
    exact each entry entry_mem
  rwa [List.map_map, List.map_map] at spelled

theorem map?_ofMap {α : Type} {form : α → JsonValue} {read : JsonValue → Option α}
    (back : ∀ item, read (form item) = some item) (map : TextMap α) :
    (ofMap form map).map? read = some map := by
  rw [map?, ofMap, members?_object map.entries Prod.fst fun entry => form entry.2]
  rw [Option.bind_eq_bind, Option.bind_some, @mapM_map _ _ _ _ _ id map.entries, List.map_id]
  · rw [Option.bind_eq_bind, Option.bind_some, TextMap.ofList_entries]
    rfl
  · intro entry _
    simp only [back, Option.map_some, id_eq]

/-- A field that is present is read as its value. -/
theorem field?_map {α : Type} {form : α → JsonValue} {read : JsonValue → Option α}
    (back : ∀ item, read (form item) = some item) (shown : ∀ item, (form item).isNull = false)
    (item : Option α) : field? read (item.map form) = some item := by
  cases item with
  | none => rfl
  | some item =>
      rw [Option.map_some, field?, optional, shown, back]
      rfl

end JsonValue

/-! ### Layers -/

namespace FieldType

def jsonValue (type : FieldType) : JsonValue := .ofText type.name

theorem ofJsonValue?_jsonValue (type : FieldType) : ofJsonValue? type.jsonValue = some type := by
  cases type <;> rfl

end FieldType

namespace VectorLayer

/-- The fields of a layer. -/
def slots (layer : VectorLayer) : List Slot :=
  [.present "id" (JsonWriter.string layer.id) (.ofText layer.id),
    .present "fields" (JsonWriter.map (fun type => JsonWriter.string type.name) layer.fields)
      (.ofMap FieldType.jsonValue layer.fields),
    .optional "description" JsonWriter.string .ofText layer.description,
    .optional "min_zoom" (fun zoom => JsonWriter.integer zoom.toInt) .ofInt32 layer.minZoom,
    .optional "max_zoom" (fun zoom => JsonWriter.integer zoom.toInt) .ofInt32 layer.maxZoom]

def jsonValue (layer : VectorLayer) : JsonValue := Slot.record layer.slots

theorem spells_toJson (layer : VectorLayer) : Spells layer.toJson layer.jsonValue := by
  have spelled : Spells (JsonWriter.object (layer.slots.flatMap Slot.written)) layer.jsonValue := by
    apply Slot.spells_record
    simp only [slots, List.forall_mem_cons, List.not_mem_nil, false_imp_iff, implies_true, and_true]
    refine ⟨Slot.spelled_present _ (.text _), Slot.spelled_present _ ?_,
      Slot.spelled_optional _ fun _ _ => .text _, Slot.spelled_optional _ fun _ _ => .integer _,
      Slot.spelled_optional _ fun _ _ => .integer _⟩
    exact JsonValue.spells_map layer.fields fun entry _ => .text _
  simp only [slots, List.flatMap_cons, List.flatMap_nil, Slot.written_present,
    Slot.written_optional, List.append_nil, ← List.append_assoc] at spelled
  exact spelled

theorem ofJsonValue?_jsonValue (layer : VectorLayer) :
    ofJsonValue? layer.jsonValue = some layer := by
  have distinct : (layer.slots.map Slot.name).Nodup := by
    change ["id", "fields", "description", "min_zoom", "max_zoom"].Nodup
    decide
  have fields : layer.jsonValue.fields? ["id", "fields", "description", "min_zoom", "max_zoom"] =
      some (layer.slots.map Slot.value) := Slot.fields?_record distinct
  have attributes := JsonValue.map?_ofMap FieldType.ofJsonValue?_jsonValue layer.fields
  have description := JsonValue.field?_map JsonValue.text?_ofText (fun _ => rfl) layer.description
  have zoom := JsonValue.field?_map JsonValue.int32?_ofInt32 (fun _ => rfl)
  simp only [slots, List.map_cons, List.map_nil, Slot.value_present, Slot.value_optional] at fields
  rw [ofJsonValue?, fields]
  simp only [JsonValue.text?_ofText, attributes, description, zoom, Option.bind_eq_bind,
    Option.bind_some, Option.pure_def]

end VectorLayer

/-! ### Metadata -/

namespace Metadata

/-- The fields of metadata without doubles. -/
def slots (metadata : Metadata) : List Slot :=
  [.optional "name" JsonWriter.string .ofText metadata.name,
    .optional "description" JsonWriter.string .ofText metadata.description,
    .optional "attribution" JsonWriter.string .ofText metadata.attribution,
    .optional "version" JsonWriter.string .ofText metadata.version,
    .optional "type" JsonWriter.string .ofText metadata.kind,
    .optional "format" JsonWriter.string .ofText metadata.format,
    ⟨"bounds", none⟩, ⟨"center", none⟩, ⟨"zoom", none⟩,
    .optional "min_zoom" (fun zoom => JsonWriter.integer zoom.toInt) .ofInt32 metadata.minZoom,
    .optional "max_zoom" (fun zoom => JsonWriter.integer zoom.toInt) .ofInt32 metadata.maxZoom,
    .optional "vector_layers" (fun layers => JsonWriter.array (layers.map VectorLayer.toJson))
      (fun layers => .array (layers.map VectorLayer.jsonValue)) metadata.vectorLayers,
    .optional "others" (JsonWriter.map JsonWriter.string) (.ofMap .ofText) metadata.others]

def jsonValue (metadata : Metadata) : JsonValue := Slot.record metadata.slots

theorem spells_layers (layers : List VectorLayer) :
    Spells (JsonWriter.array (layers.map VectorLayer.toJson))
      (.array (layers.map VectorLayer.jsonValue)) := by
  have spelled := Spells.array (layers.map fun layer => (layer.toJson, layer.jsonValue)) <| by
    intro item member
    obtain ⟨layer, -, rfl⟩ := List.mem_map.1 member
    exact layer.spells_toJson
  rwa [List.map_map, List.map_map] at spelled

theorem items?_layers (layers : List VectorLayer) :
    ((JsonValue.array (layers.map VectorLayer.jsonValue)).items?.bind
      (·.mapM VectorLayer.ofJsonValue?)) = some layers := by
  have read : (layers.map VectorLayer.jsonValue).mapM VectorLayer.ofJsonValue? =
      some (layers.map fun layer => layer) :=
    JsonValue.mapM_map layers fun layer _ => layer.ofJsonValue?_jsonValue
  rw [JsonValue.items?, Option.bind_some, read, List.map_id']

/-- No field of metadata is a double. -/
structure WithoutDoubles (metadata : Metadata) : Prop where
  bounds : metadata.bounds = none
  center : metadata.center = none
  zoom : metadata.zoom = none

variable {metadata : Metadata}

theorem spells_toJson (plain : metadata.WithoutDoubles) :
    Spells metadata.toJson metadata.jsonValue := by
  have spelled : Spells (JsonWriter.object (metadata.slots.flatMap Slot.written))
      metadata.jsonValue := by
    apply Slot.spells_record
    have text (name : String) (item : Option String) :
        (Slot.optional name JsonWriter.string .ofText item).Spelled :=
      Slot.spelled_optional name fun _ _ => .text _
    have absent (name : String) : (Slot.mk name none).Spelled := nofun
    simp only [slots, List.forall_mem_cons, List.not_mem_nil, false_imp_iff, implies_true,
      and_true, text, absent, true_and]
    refine ⟨Slot.spelled_optional _ fun _ _ => .integer _,
      Slot.spelled_optional _ fun _ _ => .integer _,
      Slot.spelled_optional _ fun layers _ => spells_layers layers,
      Slot.spelled_optional _ fun others _ => ?_⟩
    exact JsonValue.spells_map others fun entry _ => .text _
  simp only [slots, List.flatMap_cons, List.flatMap_nil, Slot.written_optional,
    List.append_nil, ← List.append_assoc] at spelled
  rw [toJson, plain.bounds, plain.center, plain.zoom]
  exact spelled

theorem ofJsonValue?_jsonValue (plain : metadata.WithoutDoubles) :
    ofJsonValue? metadata.jsonValue = some metadata := by
  have distinct : (metadata.slots.map Slot.name).Nodup := by
    change fieldNames.Nodup
    decide
  have fields : metadata.jsonValue.fields? fieldNames = some (metadata.slots.map Slot.value) :=
    Slot.fields?_record distinct
  have text := JsonValue.field?_map JsonValue.text?_ofText (fun _ => rfl)
  have zoom := JsonValue.field?_map JsonValue.int32?_ofInt32 (fun _ => rfl)
  have layers : JsonValue.field?
      (fun layers => layers.items?.bind (·.mapM VectorLayer.ofJsonValue?))
      (metadata.vectorLayers.map fun layers => .array (layers.map VectorLayer.jsonValue)) =
        some metadata.vectorLayers := JsonValue.field?_map items?_layers (fun _ => rfl) _
  have others := JsonValue.field?_map (JsonValue.map?_ofMap JsonValue.text?_ofText)
    (fun _ => rfl) metadata.others
  have absent (α : Type) (read : JsonValue → Option α) : JsonValue.field? read none = some none := rfl
  simp only [slots, List.map_cons, List.map_nil, Slot.value_optional] at fields
  rw [ofJsonValue?, fields]
  simp only [Slot.value, Option.map_none, text, zoom, layers, others, absent, Option.bind_eq_bind,
    Option.bind_some, Option.pure_def]
  rw [← plain.bounds, ← plain.center, ← plain.zoom]

/-- The text of metadata without doubles holds its fields and is read back as the same metadata, so
what is read is written as the same text again and no other metadata has this text. -/
theorem reads_written_metadata (plain : metadata.WithoutDoubles) :
    JsonReader.parse metadata.toJson = some metadata.jsonValue ∧
      ofJson? metadata.toJson = some metadata ∧
      (∀ parsed, ofJson? metadata.toJson = some parsed → parsed.toJson = metadata.toJson) ∧
      ∀ other : Metadata, other.WithoutDoubles → other.toJson = metadata.toJson →
        other = metadata := by
  have read : ofJson? metadata.toJson = some metadata := by
    rw [ofJson?, (spells_toJson plain).parse, Option.bind_some, ofJsonValue?_jsonValue plain]
  refine ⟨(spells_toJson plain).parse, read, ?_, ?_⟩
  · intro parsed found
    rw [read] at found
    rw [← Option.some.inj found]
  · intro other other_plain same
    rw [← same, ofJson?, (spells_toJson other_plain).parse, Option.bind_some,
      ofJsonValue?_jsonValue other_plain] at read
    exact Option.some.inj read

/-- Metadata with characters that are escaped, a layer with a zoom below zero, and a map without
entries. -/
def quoted : Metadata :=
  { empty with
    name := some "a\"\\\n\u0001é"
    kind := some "overlay"
    vectorLayers := some [⟨"water", .ofList [("depth", .number)], none, some (-1), none⟩]
    others := some .empty }

theorem reads_written_metadata_quoted :
    quoted.WithoutDoubles ∧ ofJson? quoted.toJson = some quoted ∧
      (({ quoted with others := none } : Metadata).toJson = quoted.toJson →
        ({ quoted with others := none } : Metadata) = quoted) := by
  have plain : quoted.WithoutDoubles := ⟨rfl, rfl, rfl⟩
  obtain ⟨-, read, -, alone⟩ := reads_written_metadata plain
  exact ⟨plain, read, alone _ ⟨rfl, rfl, rfl⟩⟩

end Metadata
end TileBindery
