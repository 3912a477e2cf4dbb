import TileBindery.Json.Double
import TileBindery.Json.Reader
import TileBindery.Json.Writer
import TileBindery.Metadata.Basic

/-!
# Metadata in JSON

Fields are written in a fixed order and left out when they are absent; only the attributes of a
layer are always written.  Fields are read in any order and may be `null`, but not twice.
-/

namespace TileBindery

namespace FieldType

def name : FieldType → String
  | .number => "number"
  | .boolean => "boolean"
  | .string => "string"

def ofName? : String → Option FieldType
  | "number" => some .number
  | "boolean" => some .boolean
  | "string" => some .string
  | _ => none

/-- The attribute type of a JSON value: its name, or an object with its name and nothing else. -/
def ofJsonValue? : JsonValue → Option FieldType
  | .string (some text) => ofName? (String.ofList text)
  | .object [(some text, .null)] => ofName? (String.ofList text)
  | _ => none

end FieldType

namespace JsonWriter

def map {α : Type} (value : α → List Char) (map : TextMap α) : List Char :=
  object (map.entries.map fun entry => member entry.1 (value entry.2))

end JsonWriter

namespace JsonValue

/-- A map, in which the last of several members of a name counts. -/
def map? {α : Type} (read : JsonValue → Option α) (value : JsonValue) : Option (TextMap α) := do
  let members ← value.members?
  let entries ← members.mapM fun (name, item) => (read item).map fun item => (name, item)
  return TextMap.ofList entries

def int32? (value : JsonValue) : Option Int32 :=
  (value.integer? (-2 ^ 31) (2 ^ 31 - 1)).map Int32.ofInt

/-- A field that may be missing or `null`. -/
def field? {α : Type} (read : JsonValue → Option α) : Option JsonValue → Option (Option α)
  | none => some none
  | some value => value.optional read

end JsonValue

namespace Envelope

def toJson (box : Envelope) : List Char :=
  JsonWriter.object
    [JsonWriter.member "min_x" (JsonWriter.double box.minX),
      JsonWriter.member "min_y" (JsonWriter.double box.minY),
      JsonWriter.member "max_x" (JsonWriter.double box.maxX),
      JsonWriter.member "max_y" (JsonWriter.double box.maxY)]

def ofJsonValue? (value : JsonValue) : Option Envelope :=
  match value.fields? ["min_x", "min_y", "max_x", "max_y"] with
  | some [some minX, some minY, some maxX, some maxY] => do
      return ⟨← minX.double?, ← minY.double?, ← maxX.double?, ← maxY.double?⟩
  | _ => none

end Envelope

namespace Center

def toJson (center : Center) : List Char :=
  JsonWriter.object
    [JsonWriter.member "x" (JsonWriter.double center.x),
      JsonWriter.member "y" (JsonWriter.double center.y)]

def ofJsonValue? (value : JsonValue) : Option Center :=
  match value.fields? ["x", "y"] with
  | some [some x, some y] => do
      return ⟨← x.double?, ← y.double?⟩
  | _ => none

end Center

namespace VectorLayer

def toJson (layer : VectorLayer) : List Char :=
  JsonWriter.object
    ([JsonWriter.member "id" (JsonWriter.string layer.id),
      JsonWriter.member "fields"
        (JsonWriter.map (fun type => JsonWriter.string type.name) layer.fields)] ++
      JsonWriter.optionalMember "description" JsonWriter.string layer.description ++
      JsonWriter.optionalMember "min_zoom" (fun zoom => JsonWriter.integer zoom.toInt)
        layer.minZoom ++
      JsonWriter.optionalMember "max_zoom" (fun zoom => JsonWriter.integer zoom.toInt)
        layer.maxZoom)

/-- The layer of a JSON value.  Its attributes may be missing, but not `null`. -/
def ofJsonValue? (value : JsonValue) : Option VectorLayer :=
  match value.fields? ["id", "fields", "description", "min_zoom", "max_zoom"] with
  | some [some id, fields, description, minZoom, maxZoom] => do
      let id ← id.text?
      let fields ← match fields with
        | none => some TextMap.empty
        | some fields => fields.map? FieldType.ofJsonValue?
      let description ← JsonValue.field? JsonValue.text? description
      let minZoom ← JsonValue.field? JsonValue.int32? minZoom
      let maxZoom ← JsonValue.field? JsonValue.int32? maxZoom
      return ⟨id, fields, description, minZoom, maxZoom⟩
  | _ => none

end VectorLayer

namespace Metadata

def toJson (metadata : Metadata) : List Char :=
  JsonWriter.object
    (JsonWriter.optionalMember "name" JsonWriter.string metadata.name ++
      JsonWriter.optionalMember "description" JsonWriter.string metadata.description ++
      JsonWriter.optionalMember "attribution" JsonWriter.string metadata.attribution ++
      JsonWriter.optionalMember "version" JsonWriter.string metadata.version ++
      JsonWriter.optionalMember "type" JsonWriter.string metadata.kind ++
      JsonWriter.optionalMember "format" JsonWriter.string metadata.format ++
      JsonWriter.optionalMember "bounds" Envelope.toJson metadata.bounds ++
      JsonWriter.optionalMember "center" Center.toJson metadata.center ++
      JsonWriter.optionalMember "zoom" JsonWriter.double metadata.zoom ++
      JsonWriter.optionalMember "min_zoom" (fun zoom => JsonWriter.integer zoom.toInt)
        metadata.minZoom ++
      JsonWriter.optionalMember "max_zoom" (fun zoom => JsonWriter.integer zoom.toInt)
        metadata.maxZoom ++
      JsonWriter.optionalMember "vector_layers"
        (fun layers => JsonWriter.array (layers.map VectorLayer.toJson)) metadata.vectorLayers ++
      JsonWriter.optionalMember "others" (JsonWriter.map JsonWriter.string) metadata.others)

/-- Names of the fields, in the order in which they are written. -/
def fieldNames : List String :=
  ["name", "description", "attribution", "version", "type", "format", "bounds", "center", "zoom",
    "min_zoom", "max_zoom", "vector_layers", "others"]

def ofJsonValue? (value : JsonValue) : Option Metadata :=
  match value.fields? fieldNames with
  | some [name, description, attribution, version, kind, format, bounds, center, zoom, minZoom,
      maxZoom, vectorLayers, others] => do
      return {
        name := ← JsonValue.field? JsonValue.text? name
        description := ← JsonValue.field? JsonValue.text? description
        attribution := ← JsonValue.field? JsonValue.text? attribution
        version := ← JsonValue.field? JsonValue.text? version
        kind := ← JsonValue.field? JsonValue.text? kind
        format := ← JsonValue.field? JsonValue.text? format
        bounds := ← JsonValue.field? Envelope.ofJsonValue? bounds
        center := ← JsonValue.field? Center.ofJsonValue? center
        zoom := ← JsonValue.field? JsonValue.double? zoom
        minZoom := ← JsonValue.field? JsonValue.int32? minZoom
        maxZoom := ← JsonValue.field? JsonValue.int32? maxZoom
        vectorLayers := ← JsonValue.field?
          (fun layers => layers.items?.bind (·.mapM VectorLayer.ofJsonValue?)) vectorLayers
        others := ← JsonValue.field? (JsonValue.map? JsonValue.text?) others }
  | _ => none

def ofJson? (text : List Char) : Option Metadata := (JsonReader.parse text).bind ofJsonValue?

end Metadata
end TileBindery
