import TileBindery.Power

/-!
# Tiles

A tile is a square of the map pyramid: zoom `z` holds `2 ^ z` columns and as many rows.  Tiles of
all zooms are numbered by one dense identifier, zoom by zoom and row by row inside a zoom, so that
the order of identifiers is the order in which tiles are written.
-/

namespace TileBindery

/-- The address of a tile in the pyramid. -/
structure Tile where
  z : Nat
  /-- Column, counted from the west. -/
  x : Nat
  /-- Row, counted from the north. -/
  y : Nat
  deriving DecidableEq, Repr, Inhabited

/-- Reasons why numbers do not name a tile. -/
inductive TileError where
  /-- The column or the row lies outside its zoom. -/
  | outsideZoom (tile : Tile)
  /-- The zoom is deeper than the pyramid. -/
  | tooDeep (zoom : Nat)
  | unknownId (id : Nat)
  deriving DecidableEq, Repr

namespace Tile

/-- The deepest zoom.  Its identifiers are the last that fit into 32 bits. -/
def maxZoom : Nat := 15

def side (zoom : Nat) : Nat := 2 ^ zoom

/-- The number of tiles in all shallower zooms, which is the first identifier of `zoom`. -/
def firstId (zoom : Nat) : Nat := (4 ^ zoom - 1) / 3

/-- The address lies inside the pyramid. -/
def Valid (tile : Tile) : Prop :=
  tile.z ≤ maxZoom ∧ tile.x < side tile.z ∧ tile.y < side tile.z

instance (tile : Tile) : Decidable tile.Valid := inferInstanceAs (Decidable (_ ∧ _ ∧ _))

/-- The tile of a zoom, column and row, refused unless it lies inside the pyramid. -/
def at? (z x y : Nat) : Except TileError Tile :=
  if maxZoom < z then .error (.tooDeep z)
  else if side z ≤ x ∨ side z ≤ y then .error (.outsideZoom ⟨z, x, y⟩)
  else .ok ⟨z, x, y⟩

def id (tile : Tile) : Nat := firstId tile.z + tile.y * side tile.z + tile.x

/-- The deepest zoom, among the `limit` zooms below `zoom`, that starts at or before `id`. -/
def zoomOfId (id : Nat) : (limit zoom : Nat) → Nat
  | 0, zoom => zoom
  | limit + 1, zoom => if firstId (zoom + 1) ≤ id then zoomOfId id limit (zoom + 1) else zoom

/-- The tile of an identifier, refused for numbers behind the last tile of the deepest zoom. -/
def ofId? (id : Nat) : Except TileError Tile :=
  let z := zoomOfId id maxZoom 0
  let offset := id - firstId z
  if side z * side z ≤ offset then .error (.unknownId id)
  else .ok ⟨z, offset % side z, offset / side z⟩

theorem firstId_zoomOfId_le {id zoom : Nat} (limit : Nat) (start : firstId zoom ≤ id) :
    firstId (zoomOfId id limit zoom) ≤ id := by
  induction limit generalizing zoom with
  | zero => exact start
  | succ limit ih =>
      rw [zoomOfId]
      split
      next deeper => exact ih deeper
      next => exact start

/-- A tile that an identifier names has this identifier. -/
theorem id_of_ofId? {id : Nat} {tile : Tile} (named : ofId? id = .ok tile) : tile.id = id := by
  rw [ofId?] at named
  have start := @firstId_zoomOfId_le id 0 maxZoom (Nat.zero_le id)
  split at named
  · cases named
  · cases named
    have parts := Nat.div_add_mod' (id - firstId (zoomOfId id maxZoom 0))
      (side (zoomOfId id maxZoom 0))
    rw [Tile.id, Nat.add_assoc, parts]
    exact Nat.add_sub_cancel' start

/-- Tiles compare as their identifiers do. -/
instance : Ord Tile where
  compare a b := compare a.id b.id

/-- The address as `zoom/column/row`. -/
def text (tile : Tile) : String := s!"{tile.z}/{tile.x}/{tile.y}"

theorem valid_of_at? {z x y : Nat} {tile : Tile} (h : at? z x y = .ok tile) : tile.Valid := by
  unfold at? at h
  split at h
  · simp at h
  split at h
  · simp at h
  · simp only [Except.ok.injEq] at h
    subst h
    simp only [Valid]
    omega

theorem at?_of_valid {tile : Tile} (valid : tile.Valid) :
    at? tile.z tile.x tile.y = .ok tile := by
  obtain ⟨shallow, column, row⟩ := valid
  rw [at?, if_neg (Nat.not_lt.2 shallow), if_neg]
  rintro (outside | outside)
  · exact Nat.not_lt.2 outside column
  · exact Nat.not_lt.2 outside row

end Tile

namespace TileError

def message : TileError → String
  | .outsideZoom tile => "Invalid tile coordinate " ++ tile.text
  | .tooDeep zoom => s!"Zoom {zoom} exceeds maximum zoom " ++ toString Tile.maxZoom
  | .unknownId id => s!"Tile id {id} does not decode to a tile"

end TileError
end TileBindery
