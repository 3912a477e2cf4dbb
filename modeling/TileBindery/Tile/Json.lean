import TileBindery.Json.Reader
import TileBindery.Json.Writer
import TileBindery.Tile

/-!
# Tiles in JSON

A tile is an object with its zoom, column and row.  Reading checks that the numbers fit their words
but not that they lie inside the pyramid.
-/

namespace TileBindery
namespace Tile

def toJson (tile : Tile) : List Char :=
  JsonWriter.object
    [JsonWriter.member "z" (JsonWriter.integer tile.z),
      JsonWriter.member "x" (JsonWriter.integer tile.x),
      JsonWriter.member "y" (JsonWriter.integer tile.y)]

def ofJsonValue? (value : JsonValue) : Option Tile :=
  match value.fields? ["z", "x", "y"] with
  | some [some z, some x, some y] => do
      let z ← z.integer? 0 (2 ^ 8 - 1)
      let x ← x.integer? 0 (2 ^ 32 - 1)
      let y ← y.integer? 0 (2 ^ 32 - 1)
      return ⟨z.toNat, x.toNat, y.toNat⟩
  | _ => none

def ofJson? (text : List Char) : Option Tile := (JsonReader.parse text).bind ofJsonValue?

end Tile
end TileBindery
