import Mathlib.Data.Set.Function
import Mathlib.Order.Interval.Set.Defs
import TileBindery.Feature
import TileBindery.Proofs.Tile.Identifiers

/-!
# The order of identifiers

Identifiers count the tiles of the pyramid without gaps: zoom by zoom, row by row inside a zoom and
column by column inside a row.  A sort key puts the order inside the tile behind the identifier, as
the low digit of a number of two digits.  The main statement says that the identifiers up to the last
one stand for the valid tiles in their order, and that keys are in the order of tiles and places
inside them.
-/

namespace TileBindery

/-- Numbers of two digits compare by the high digit, then by the low one. -/
theorem compare_digits {base low low' : Nat} (high high' : Nat) (fits : low < base)
    (fits' : low' < base) :
    compare (high * base + low) (high' * base + low') =
      (compare high high').then (compare low low') := by
  rcases Nat.lt_trichotomy high high' with less | same | greater
  · have room : (high + 1) * base ≤ high' * base := Nat.mul_le_mul_right base less
    rw [Nat.succ_mul] at room
    rw [Nat.compare_eq_lt.2 less, Ordering.lt_then]
    exact Nat.compare_eq_lt.2 (by omega)
  · subst same
    rw [Nat.compare_eq_eq.2 rfl, Ordering.eq_then, Nat.compare_eq_ite_lt, Nat.compare_eq_ite_lt]
    simp only [Nat.add_lt_add_iff_left]
  · have room : (high' + 1) * base ≤ high * base := Nat.mul_le_mul_right base greater
    rw [Nat.succ_mul] at room
    rw [Nat.compare_eq_gt.2 greater, Ordering.gt_then]
    exact Nat.compare_eq_gt.2 (by omega)

namespace Tile

variable {tile a b : Tile}

/-- The last identifier, that of the last tile of the deepest zoom. -/
def lastId : Nat := 1431655764

/-- The order of the pyramid: shallow zooms first, northern rows first, western columns first. -/
def inPyramid (a b : Tile) : Ordering :=
  (compare a.z b.z).then ((compare a.y b.y).then (compare a.x b.x))

theorem succ_lastId : lastId + 1 = firstId (maxZoom + 1) := by decide

/-- Tiles of different zooms have identifiers in the order of their zooms. -/
theorem id_lt_id_of_shallower (valid : a.Valid) (shallower : a.z < b.z) : a.id < b.id :=
  calc
    a.id < firstId (a.z + 1) := valid.id_lt
    _ ≤ firstId b.z := firstId_mono shallower
    _ ≤ b.id := by
      rw [Tile.id, Nat.add_assoc]
      exact Nat.le_add_right _ _

/-- Valid tiles have identifiers in the order of the pyramid. -/
theorem compare_id (a_valid : a.Valid) (b_valid : b.Valid) :
    compare a.id b.id = a.inPyramid b := by
  rw [inPyramid]
  rcases Nat.lt_trichotomy a.z b.z with shallower | same | deeper
  · rw [Nat.compare_eq_lt.2 shallower, Ordering.lt_then]
    exact Nat.compare_eq_lt.2 (id_lt_id_of_shallower a_valid shallower)
  · have places := compare_digits a.y b.y a_valid.2.1 (same ▸ b_valid.2.1)
    rw [Nat.compare_eq_eq.2 same, Ordering.eq_then, ← places, Tile.id, Tile.id, same]
    simp only [Nat.compare_eq_ite_lt, Nat.add_assoc, Nat.add_lt_add_iff_left]
  · rw [Nat.compare_eq_gt.2 deeper, Ordering.gt_then]
    exact Nat.compare_eq_gt.2 (id_lt_id_of_shallower b_valid deeper)

theorem Valid.id_le_lastId (valid : tile.Valid) : tile.id ≤ lastId := by
  apply Nat.le_of_lt_succ
  rw [Nat.succ_eq_add_one, succ_lastId]
  exact Nat.lt_of_lt_of_le valid.id_lt (firstId_mono (Nat.succ_le_succ valid.1))

/-- The zoom that is found for an identifier is the last that begins at or before it, or the deepest
that is searched. -/
theorem lt_firstId_zoomOfId (id limit zoom : Nat) :
    id < firstId (zoomOfId id limit zoom + 1) ∨ zoomOfId id limit zoom = zoom + limit := by
  induction limit generalizing zoom with
  | zero => exact .inr rfl
  | succ limit induction =>
      rw [zoomOfId]
      split
      next deeper =>
        rw [Nat.add_comm limit 1, ← Nat.add_assoc]
        exact induction (zoom + 1)
      next last => exact .inl (Nat.not_le.1 last)

/-- The identifiers up to the last one name tiles, and the numbers behind it do not. -/
theorem ofId?_cases (id : Nat) :
    (id ≤ lastId ∧ ∃ tile, ofId? id = .ok tile) ∨
      (lastId < id ∧ ofId? id = .error (.unknownId id)) := by
  have start : firstId (zoomOfId id maxZoom 0) ≤ id := firstId_zoomOfId_le maxZoom (Nat.zero_le id)
  have next := firstId_succ (zoomOfId id maxZoom 0)
  have shallow := zoomOfId_le id maxZoom 0
  rw [ofId?]
  split
  next outside =>
    refine .inr ⟨?_, rfl⟩
    rcases lt_firstId_zoomOfId id maxZoom 0 with inside | deepest
    · omega
    · rw [Nat.zero_add] at deepest
      rw [deepest] at outside start next
      have bound := succ_lastId
      omega
  next inside =>
    refine .inl ⟨?_, _, rfl⟩
    have bound := succ_lastId
    have deepest : firstId (zoomOfId id maxZoom 0 + 1) ≤ firstId (maxZoom + 1) :=
      firstId_mono (by omega)
    omega

/-- A number names a tile exactly if the tile is valid and the number is its identifier. -/
theorem ofId?_eq_ok_iff {id : Nat} : ofId? id = .ok tile ↔ tile.Valid ∧ tile.id = id := by
  constructor
  · intro named
    exact ⟨valid_of_ofId? named, id_of_ofId? named⟩
  · rintro ⟨valid, rfl⟩
    exact ofId?_id valid

/-- Identifiers and valid tiles correspond one by one. -/
theorem bijOn_id : Set.BijOn Tile.id {tile | tile.Valid} (Set.Iic lastId) := by
  refine ⟨?_, ?_, ?_⟩
  · intro tile valid
    exact Valid.id_le_lastId valid
  · intro a a_valid b b_valid same
    have named := ofId?_id a_valid
    rw [same, ofId?_id b_valid] at named
    exact (Except.ok.inj named).symm
  · intro id within
    rcases ofId?_cases id with ⟨-, tile, named⟩ | ⟨beyond, -⟩
    · exact ⟨tile, ofId?_eq_ok_iff.1 named⟩
    · exact absurd within (Nat.not_le.2 beyond)

end Tile

/-! ### Sort keys -/

namespace Feature

variable {tile a b : Tile}

theorem toNat_packKey (valid : tile.Valid) (secondary : UInt32) :
    (packKey tile secondary).toNat = tile.id * 2 ^ 32 + secondary.toNat := by
  have word := valid.id_lt_word
  have low := secondary.toNat_lt
  rw [packKey, UInt64.toNat_ofNat']
  apply Nat.mod_eq_of_lt
  omega

/-- Keys compare by their tiles in the order of the pyramid, then by the order inside the tile. -/
theorem compare_packKey (a_valid : a.Valid) (b_valid : b.Valid) (s t : UInt32) :
    compare (packKey a s) (packKey b t) = (a.inPyramid b).then (compare s t) := by
  have digits := compare_digits a.id b.id s.toNat_lt t.toNat_lt
  rw [← toNat_packKey a_valid, ← toNat_packKey b_valid, Tile.compare_id a_valid b_valid] at digits
  rwa [UInt64.compare_eq_toNat_compare_toNat, UInt32.compare_eq_toNat_compare_toNat]

/-- A key gives back the tile and the order inside it. -/
theorem parts_ofTile (valid : tile.Valid) (secondary : UInt32) (payload : Bytes) :
    (ofTile tile secondary payload).tileId = tile.id ∧
      (ofTile tile secondary payload).secondary = secondary.toNat ∧
      (ofTile tile secondary payload).tile? = .ok tile := by
  have low := secondary.toNat_lt
  have high : (ofTile tile secondary payload).tileId = tile.id := by
    rw [tileId, ofTile, toNat_packKey valid]
    omega
  refine ⟨high, ?_, ?_⟩
  · rw [Feature.secondary, ofTile, toNat_packKey valid]
    omega
  · rw [tile?, high]
    exact Tile.ofId?_id valid

end Feature

namespace Tile

/-! ### Identifiers and keys -/

/-- The identifiers up to the last one and the valid tiles correspond one by one and in order, and
the identifier of a valid tile is computed without leaving its words.  A number names the valid tile
whose identifier it is, and nothing else names a tile.  Keys of valid tiles are in the order of tiles
and places inside them, and give both back. -/
theorem ids_and_keys_in_order :
    (Set.BijOn Tile.id {tile | tile.Valid} (Set.Iic lastId) ∧
        (∀ a b : Tile, a.Valid → b.Valid →
          compare a.id b.id = a.inPyramid b ∧ compare a b = a.inPyramid b) ∧
        ∀ tile : Tile, tile.Valid → tile.wordId? = some tile.id) ∧
      ((∀ id tile, ofId? id = .ok tile ↔ tile.Valid ∧ tile.id = id) ∧
        ∀ id, lastId < id → ofId? id = .error (.unknownId id)) ∧
      ∀ a b : Tile, a.Valid → b.Valid → ∀ (s t : UInt32) (payload : Bytes),
        compare (Feature.packKey a s) (Feature.packKey b t) =
            (a.inPyramid b).then (compare s t) ∧
          (Feature.ofTile a s payload).tileId = a.id ∧
          (Feature.ofTile a s payload).secondary = s.toNat ∧
          (Feature.ofTile a s payload).tile? = .ok a := by
  refine ⟨⟨bijOn_id, ?_, fun tile valid => wordId?_of_valid valid⟩, ⟨?_, ?_⟩, ?_⟩
  · intro a b a_valid b_valid
    exact ⟨compare_id a_valid b_valid, compare_id a_valid b_valid⟩
  · intro id tile
    exact ofId?_eq_ok_iff
  · intro id beyond
    rcases ofId?_cases id with ⟨within, -⟩ | ⟨-, refused⟩
    · exact absurd within (Nat.not_le.2 beyond)
    · exact refused
  · intro a b a_valid b_valid s t payload
    exact ⟨Feature.compare_packKey a_valid b_valid s t, Feature.parts_ofTile a_valid s payload⟩

/-- The last tile of zoom 14 and the first of zoom 15, whose identifiers follow each other, and the
first number that names no tile. -/
theorem ids_and_keys_in_order_deepest :
    compare (id ⟨14, 16383, 16383⟩) (id ⟨15, 0, 0⟩) = .lt ∧
      wordId? ⟨15, 32767, 32767⟩ = some lastId ∧
      ofId? (lastId + 1) = .error (.unknownId (lastId + 1)) ∧
      compare (Feature.packKey ⟨14, 16383, 16383⟩ 0xFFFFFFFF) (Feature.packKey ⟨15, 0, 0⟩ 0) = .lt := by
  obtain ⟨⟨-, ordered, words⟩, ⟨-, beyond⟩, keys⟩ := ids_and_keys_in_order
  have last : Valid ⟨14, 16383, 16383⟩ := by decide
  have first : Valid ⟨15, 0, 0⟩ := by decide
  refine ⟨?_, ?_, beyond _ (Nat.lt_succ_self _), ?_⟩
  · rw [(ordered _ _ last first).1]
    rfl
  · rw [words ⟨15, 32767, 32767⟩ (by decide)]
    rfl
  · rw [(keys _ _ last first _ _ []).1]
    rfl

end Tile
end TileBindery
