import TileBindery.Archive.Reader

/-!
# What readers hand out

The calls of a reader give the items of its stream, then the error that they stop at, if there is
one, and from then on nothing.
-/

namespace TileBindery

namespace StreamReader

variable {α : Type} {read : ByteSource → Reading α} {source : ByteSource}
  {items : List (Except ArchiveError α)}

/-- What is read of a stream: its items in order, and the error that they stop at. -/
inductive Yields (read : ByteSource → Reading α) :
    ByteSource → List (Except ArchiveError α) → Prop where
  | ended {source : ByteSource} (h : read source = .ended) : Yields read source []
  | failed {source : ByteSource} {error : ArchiveError} (h : read source = .failed error) :
      Yields read source [.error error]
  | item {source rest : ByteSource} {value : α} {items : List (Except ArchiveError α)}
      (h : read source = .item value rest) (others : Yields read rest items) :
      Yields read source (.ok value :: items)

theorem map_range_succ {β : Type} (l : List β) (count : Nat) :
    ((List.range (count + 1)).map fun index => l[index]?) =
      l.head? :: (List.range count).map fun index => l.tail[index]? := by
  rw [List.range_succ_eq_map, List.map_cons, List.map_map, List.head?_eq_getElem?]
  congr 1
  apply List.map_congr_left
  intro index _
  simp

/-- A reader that has met the end or an error gives nothing more. -/
theorem calls_of_done {reader : StreamReader} (done : reader.done = true) (count : Nat) :
    reader.calls read count =
      (List.range count).map fun index => ([] : List (Except ArchiveError α))[index]? := by
  induction count with
  | zero => rfl
  | succ count ih =>
      have same : reader.next read = (none, reader) := if_pos done
      rw [calls, same, map_range_succ]
      exact congrArg _ ih

/-- What the first call does. -/
theorem next_start (read : ByteSource → Reading α) (source : ByteSource) :
    (start source).next read = match read source with
      | .item value rest => (some (.ok value), start rest)
      | .ended => (none, ⟨source, true⟩)
      | .failed error => (some (.error error), ⟨source, true⟩) := rfl

/-- The calls of a reader give what is read of its stream, and then nothing. -/
theorem calls_of_yields (yields : Yields read source items) (count : Nat) :
    (start source).calls read count = (List.range count).map fun index => items[index]? := by
  induction count generalizing source items with
  | zero => rfl
  | succ count ih =>
      rw [calls, map_range_succ, next_start]
      cases yields with
      | ended h =>
          rw [h]
          exact congrArg _ (calls_of_done rfl count)
      | failed h =>
          rw [h]
          exact congrArg _ (calls_of_done rfl count)
      | item h others =>
          rw [h]
          exact congrArg _ (ih others)

/-- The places of a stream at which a reader looks for an item. -/
inductive Reaches (read : ByteSource → Reading α) (source : ByteSource) : ByteSource → Prop where
  | start : Reaches read source source
  | behind {place rest : ByteSource} {value : α} (reached : Reaches read source place)
      (h : read place = .item value rest) : Reaches read source rest

theorem Reaches.trans {place rest : ByteSource} (first : Reaches read source place)
    (second : Reaches read place rest) : Reaches read source rest := by
  induction second with
  | start => exact first
  | behind _ h ih => exact .behind ih h

/-- What the calls give depends on what is read at these places only. -/
theorem calls_congr {other : ByteSource → Reading α}
    (same : ∀ place, Reaches read source place → read place = other place) (count : Nat) :
    (start source).calls read count = (start source).calls other count := by
  induction count generalizing source with
  | zero => rfl
  | succ count ih =>
      rw [calls, calls, next_start, next_start, ← same source .start]
      cases found : read source with
      | item value rest =>
          refine congrArg _ (ih fun place reached => same place ?_)
          exact .trans (.behind .start found) reached
      | ended => exact congrArg _ ((calls_of_done rfl count).trans (calls_of_done rfl count).symm)
      | failed error =>
          exact congrArg _ ((calls_of_done rfl count).trans (calls_of_done rfl count).symm)

end StreamReader

end TileBindery
