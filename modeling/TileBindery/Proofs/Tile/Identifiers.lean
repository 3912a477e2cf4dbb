import TileBindery.Tile

/-!
# Identifiers of tiles

The tiles of a zoom have the identifiers from its first one up to the first one of the next zoom, so
the identifier of a valid tile tells its zoom, and the place inside the zoom tells row and column.
The main statements say that a valid tile is found again by its identifier, and that this identifier
is computed in words of a machine without leaving them.
-/

namespace TileBindery
namespace Tile

/-! ### Zooms -/

theorem three_mul_firstId (zoom : Nat) : 3 * firstId zoom + 1 = 4 ^ zoom := by
  have remainder : 4 ^ zoom % 3 = 1 := by rw [Nat.pow_mod, Nat.one_pow, Nat.one_mod]
  have parts := Nat.div_add_mod (4 ^ zoom) 3
  unfold firstId
  omega

theorem side_mul_side (zoom : Nat) : side zoom * side zoom = 4 ^ zoom := by
  rw [side, ← Nat.mul_pow]

/-- The next zoom starts behind all tiles of a zoom. -/
theorem firstId_succ (zoom : Nat) : firstId (zoom + 1) = firstId zoom + side zoom * side zoom := by
  have here := three_mul_firstId zoom
  have next := three_mul_firstId (zoom + 1)
  rw [Nat.pow_succ] at next
  rw [side_mul_side]
  omega

theorem firstId_mono {zoom deeper : Nat} (le : zoom ≤ deeper) : firstId zoom ≤ firstId deeper := by
  have shallow := three_mul_firstId zoom
  have deep := three_mul_firstId deeper
  have powers : 4 ^ zoom ≤ 4 ^ deeper := Nat.pow_le_pow_right (by decide) le
  omega

theorem side_pos (zoom : Nat) : 0 < side zoom := Nat.two_pow_pos zoom

/-- A zoom in the pyramid is found by any identifier of it, however shallow the search starts. -/
theorem zoomOfId_eq {id zoom : Nat} (limit : Nat) {start : Nat} (from_start : start ≤ zoom)
    (in_reach : zoom ≤ start + limit) (first : firstId zoom ≤ id)
    (last : id < firstId (zoom + 1)) : zoomOfId id limit start = zoom := by
  induction limit generalizing start with
  | zero => exact Nat.le_antisymm from_start in_reach
  | succ limit ih =>
      rw [zoomOfId]
      by_cases here : start = zoom
      · rw [if_neg (by rw [here]; exact Nat.not_le.2 last), here]
      · have deeper : start + 1 ≤ zoom := Nat.lt_of_le_of_ne from_start here
        rw [if_pos (Nat.le_trans (firstId_mono deeper) first)]
        exact ih deeper (by omega)

/-! ### Valid tiles -/

variable {tile : Tile}

namespace Valid

/-- The place of a valid tile in its zoom, row by row. -/
theorem place_lt (valid : tile.Valid) :
    tile.y * side tile.z + tile.x < side tile.z * side tile.z := by
  have row : (tile.y + 1) * side tile.z ≤ side tile.z * side tile.z :=
    Nat.mul_le_mul_right _ valid.2.2
  rw [Nat.succ_mul] at row
  have column := valid.2.1
  omega

theorem id_lt (valid : tile.Valid) : tile.id < firstId (tile.z + 1) := by
  have place := valid.place_lt
  rw [firstId_succ, Tile.id]
  omega

theorem id_lt_word (valid : tile.Valid) : tile.id < 2 ^ 32 :=
  Nat.lt_of_lt_of_le valid.id_lt (Nat.le_trans
    (firstId_mono (Nat.succ_le_succ valid.1)) (show firstId (maxZoom + 1) ≤ 2 ^ 32 by decide))

end Valid

/-- A valid tile is the one that its identifier names. -/
theorem ofId?_id (valid : tile.Valid) : ofId? tile.id = .ok tile := by
  have place := valid.place_lt
  have zoom : zoomOfId tile.id maxZoom 0 = tile.z :=
    zoomOfId_eq maxZoom (Nat.zero_le _) (by rw [Nat.zero_add]; exact valid.1)
      (by rw [Tile.id]; omega) valid.id_lt
  have offset : tile.id - firstId tile.z = tile.x + tile.y * side tile.z := by
    rw [Tile.id]
    omega
  rw [ofId?]
  rw [zoom, offset, if_neg (by omega), Nat.add_mul_mod_self_right, Nat.mod_eq_of_lt valid.2.1,
    Nat.add_mul_div_right _ _ (side_pos _), Nat.div_eq_of_lt valid.2.1, Nat.zero_add]

theorem zoomOfId_le (id limit start : Nat) : zoomOfId id limit start ≤ start + limit := by
  induction limit generalizing start with
  | zero => exact Nat.le_refl start
  | succ limit ih =>
      rw [zoomOfId]
      split
      next => exact Nat.le_trans (ih (start + 1)) (by omega)
      next => exact Nat.le_add_right _ _

/-- Whatever an identifier names lies inside the pyramid. -/
theorem valid_of_ofId? {id : Nat} (named : ofId? id = .ok tile) : tile.Valid := by
  rw [ofId?] at named
  split at named
  · cases named
  next inside =>
    cases named
    have zoom := zoomOfId_le id maxZoom 0
    rw [Nat.zero_add] at zoom
    refine ⟨zoom, Nat.mod_lt _ (side_pos _), ?_⟩
    exact Nat.div_lt_of_lt_mul (Nat.not_le.1 inside)

/-! ### Identifiers in words -/

/-- A number as a word of some width, unless it does not fit. -/
def word? (width n : Nat) : Option Nat := if n < 2 ^ width then some n else none

/-- A word moved to the left, unless the way is as long as the word or bits are lost. -/
def shiftLeft? (width n amount : Nat) : Option Nat :=
  if amount < width then word? width (n * 2 ^ amount) else none

/-- The first identifier of a zoom, computed in long words and narrowed to a word. -/
def firstWord? (zoom : Nat) : Option Nat := do
  let tiles ← shiftLeft? 64 1 (2 * zoom)
  word? 32 ((tiles - 1) / 3)

/-- The identifier of a tile computed in words, unless some step leaves its word. -/
def wordId? (tile : Tile) : Option Nat := do
  let first ← firstWord? tile.z
  let row ← shiftLeft? 32 tile.y tile.z
  let start ← word? 32 (first + row)
  word? 32 (start + tile.x)

theorem word?_of_lt {width n : Nat} (fits : n < 2 ^ width) : word? width n = some n := if_pos fits

theorem firstWord?_of_le {zoom : Nat} (le : zoom ≤ maxZoom) :
    firstWord? zoom = some (firstId zoom) := by
  have short : 2 * zoom < 64 := by
    unfold maxZoom at le
    omega
  have tiles : 1 * 2 ^ (2 * zoom) = 4 ^ zoom := by rw [Nat.one_mul, Nat.pow_mul]
  have fits : 4 ^ zoom < 2 ^ 64 := by
    rw [← tiles, Nat.one_mul]
    exact Nat.pow_lt_pow_right (by decide) short
  have first_fits : firstId zoom < 2 ^ 32 :=
    Nat.lt_of_le_of_lt (firstId_mono le) (by decide)
  rw [firstWord?, shiftLeft?, if_pos short, tiles, word?_of_lt fits]
  exact word?_of_lt first_fits

/-- The identifier of a valid tile is computed without leaving the words. -/
theorem wordId?_of_valid (valid : tile.Valid) : tile.wordId? = some tile.id := by
  have whole := valid.id_lt_word
  rw [Tile.id] at whole
  have short : tile.z < 32 := Nat.lt_of_le_of_lt valid.1 (by decide)
  have row : shiftLeft? 32 tile.y tile.z = some (tile.y * side tile.z) := by
    rw [shiftLeft?, if_pos short]
    exact word?_of_lt (by rw [← side]; omega)
  simp only [wordId?, firstWord?_of_le valid.1, row, Option.bind_eq_bind, Option.bind_some]
  rw [word?_of_lt (by omega), Option.bind_some, word?_of_lt whole, Tile.id]

end Tile
end TileBindery
