import TileBindery.Feature
import TileBindery.Spill.Error

/-!
# Grouping features by tile

A stream of sorted features is cut into one group a tile.  Groups come out in strictly ascending
order; the first feature that breaks the order, or whose key names no tile, ends the stream with an
error, as does an error in the stream itself once the group in front of it is out.
-/

namespace TileBindery
namespace Grouping

/-- What a source of features or groups hands out, in order. -/
abbrev Stream (α : Type) := List (Except SortError α)

/-- The features of tile `id` at the front of a stream, and what follows them. -/
def spanTile (id : Nat) : Stream Feature → List Feature × Stream Feature
  | .ok feature :: rest =>
      if feature.tileId = id then
        let (features, behind) := spanTile id rest
        (feature :: features, behind)
      else ([], .ok feature :: rest)
  | .error error :: rest => ([], .error error :: rest)
  | [] => ([], [])

theorem length_spanTile_le (id : Nat) (stream : Stream Feature) :
    (spanTile id stream).2.length ≤ stream.length := by
  induction stream with
  | nil => simp [spanTile]
  | cons item rest ih =>
      cases item with
      | error error => simp [spanTile]
      | ok feature =>
          simp only [spanTile]
          split
          · simp only [List.length_cons]
            omega
          · simp

/-- The groups of a stream that stands behind a group of tile `previous`. -/
def groupsAfter (previous : Option Nat) (stream : Stream Feature) : Stream TileFeatures :=
  match stream with
  | [] => []
  | .error error :: _ => [.error error]
  | .ok first :: rest =>
      match previous.filter (first.tileId ≤ ·) with
      | some previous => [.error (.outOfOrder previous first.tileId)]
      | none =>
          match first.tile? with
          | .error error => [.error (.corruption (.tile error))]
          | .ok tile =>
              .ok ⟨tile, first :: (spanTile first.tileId rest).1⟩ ::
                groupsAfter (some first.tileId) (spanTile first.tileId rest).2
termination_by stream.length
decreasing_by
  have := length_spanTile_le first.tileId rest
  simp only [List.length_cons]
  omega

def groups (stream : Stream Feature) : Stream TileFeatures := groupsAfter none stream

end Grouping
end TileBindery
