import TileBindery.Proofs.Json.Documents
import TileBindery.Proofs.Tile.Identifiers
import TileBindery.Tile.Json

/-!
# Where tiles come from

Tiles are made of numbers, named by identifiers, or read from JSON.  The main statement says which
tiles can be had in each of these ways, and that exactly the valid ones are found again by their
identifiers: reading JSON lets in every tile whose numbers fit their words.
-/

namespace TileBindery
namespace Tile

variable {tile : Tile}

/-- The numbers of a tile fit the words that hold them. -/
def FitsWords (tile : Tile) : Prop := tile.z < 2 ^ 8 ∧ tile.x < 2 ^ 32 ∧ tile.y < 2 ^ 32

/-! ### Reading JSON -/

theorem integer?_natural {n : Nat} {greatest : Int} (le : (n : Int) ≤ greatest) :
    (JsonValue.number (.ofInt n)).integer? 0 greatest = some (n : Int) :=
  JsonValue.integer?_ofInt (Int.natCast_nonneg n) le

/-- The object that a tile is written as. -/
def jsonObject (tile : Tile) : JsonValue :=
  .object [(some "z".toList, .number (.ofInt tile.z)), (some "x".toList, .number (.ofInt tile.x)),
    (some "y".toList, .number (.ofInt tile.y))]

theorem spells_toJson (tile : Tile) : JsonReader.Spells tile.toJson tile.jsonObject := by
  apply JsonReader.Spells.object
    [⟨"z", JsonWriter.integer tile.z, .number (.ofInt tile.z)⟩,
      ⟨"x", JsonWriter.integer tile.x, .number (.ofInt tile.x)⟩,
      ⟨"y", JsonWriter.integer tile.y, .number (.ofInt tile.y)⟩]
  simp only [List.forall_mem_cons, List.not_mem_nil, false_imp_iff, implies_true, and_true]
  exact ⟨.integer _, .integer _, .integer _⟩

/-- A tile whose numbers fit their words is read as it is written. -/
theorem ofJson?_toJson (fits : tile.FitsWords) : ofJson? tile.toJson = some tile := by
  obtain ⟨z_fits, x_fits, y_fits⟩ := fits
  have fields : tile.jsonObject.fields? ["z", "x", "y"] =
      some [some (.number (.ofInt tile.z)), some (.number (.ofInt tile.x)),
        some (.number (.ofInt tile.y))] := by
    simp [jsonObject, JsonValue.fields?, JsonValue.members?, JsonValue.member?]
  have z_le : (tile.z : Int) ≤ 2 ^ 8 - 1 := by omega
  have x_le : (tile.x : Int) ≤ 2 ^ 32 - 1 := by omega
  have y_le : (tile.y : Int) ≤ 2 ^ 32 - 1 := by omega
  rw [ofJson?, (spells_toJson tile).parse, Option.bind_some, ofJsonValue?, fields]
  simp only [integer?_natural z_le, integer?_natural x_le, integer?_natural y_le,
    Option.bind_eq_bind, Option.bind_some, Int.toNat_natCast, Option.pure_def]

theorem integer?_bounds {value : JsonValue} {least greatest n : Int}
    (read : value.integer? least greatest = some n) : least ≤ n ∧ n ≤ greatest := by
  cases value with
  | number found => simpa using (Option.filter_eq_some_iff.1 read).2
  | _ => cases read

/-- Whatever is read from JSON fits its words. -/
theorem fitsWords_of_ofJson? {text : List Char} (read : ofJson? text = some tile) :
    tile.FitsWords := by
  obtain ⟨value, -, found⟩ := Option.bind_eq_some_iff.1 read
  rw [ofJsonValue?] at found
  split at found
  next z x y fields =>
    obtain ⟨z, z_read, found⟩ := Option.bind_eq_some_iff.1 found
    obtain ⟨x, x_read, found⟩ := Option.bind_eq_some_iff.1 found
    obtain ⟨y, y_read, found⟩ := Option.bind_eq_some_iff.1 found
    cases found
    have z_bounds := integer?_bounds z_read
    have x_bounds := integer?_bounds x_read
    have y_bounds := integer?_bounds y_read
    simp only [FitsWords]
    omega
  next => cases found

/-! ### All ways to obtain a tile -/

/-- Tiles made of numbers and tiles named by identifiers are the valid ones, and tiles read from
JSON are all whose numbers fit their words.  The valid tiles are those whose identifier is computed
without leaving its words and names them again. -/
theorem obtained_iff (tile : Tile) :
    ((∃ z x y, at? z x y = .ok tile) ↔ tile.Valid) ∧
      ((∃ id, ofId? id = .ok tile) ↔ tile.Valid) ∧
      ((∃ text, ofJson? text = some tile) ↔ tile.FitsWords) ∧
      (tile.Valid ↔ tile.wordId? = some tile.id ∧ ofId? tile.id = .ok tile) := by
  refine ⟨⟨fun ⟨z, x, y, made⟩ => valid_of_at? made, fun valid => ⟨_, _, _, at?_of_valid valid⟩⟩,
    ⟨fun ⟨id, named⟩ => valid_of_ofId? named, fun valid => ⟨tile.id, ofId?_id valid⟩⟩,
    ⟨fun ⟨text, read⟩ => fitsWords_of_ofJson? read, fun fits => ⟨_, ofJson?_toJson fits⟩⟩, ?_⟩
  exact ⟨fun valid => ⟨wordId?_of_valid valid, ofId?_id valid⟩,
    fun ⟨_, named⟩ => valid_of_ofId? named⟩

/-- A text with a zoom that is too deep is read, and the first identifier of that zoom is out of
reach of words; one with a column behind the last is read, and its identifier names another tile. -/
theorem reads_tiles_outside :
    ¬(∀ text tile, ofJson? text = some tile → tile.Valid ∧
        tile.wordId? = some tile.id ∧ ofId? tile.id = .ok tile) ∧
      ofJson? "\x7b\"z\":32,\"x\":0,\"y\":0\x7d".toList = some ⟨32, 0, 0⟩ ∧
      wordId? ⟨32, 0, 0⟩ = none ∧
      ofJson? "\x7b\"z\":1,\"x\":2,\"y\":0\x7d".toList = some ⟨1, 2, 0⟩ ∧
      ofId? (id ⟨1, 2, 0⟩) = .ok ⟨1, 0, 1⟩ := by
  have deep : ofJson? "\x7b\"z\":32,\"x\":0,\"y\":0\x7d".toList = some ⟨32, 0, 0⟩ := by decide +kernel
  refine ⟨fun all => ?_, deep, by decide +kernel, by decide +kernel, by decide +kernel⟩
  exact absurd (all _ _ deep).1 (by decide)

end Tile
end TileBindery
