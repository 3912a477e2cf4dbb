import TileBindery.Grouping
import TileBindery.Spill.Merge

/-!
# Grouping while features arrive

A grouper asks its source for one feature after another until it meets one of another tile, which it
keeps for the next group.  An error that it meets instead comes out behind the group.
-/

namespace TileBindery
namespace Grouping

/-! ### Sources of features -/

/-- How a finite source is asked for features. -/
structure Feed (ι : Type) where
  /-- Ask for the next feature or error. -/
  poll : ι → Option (Except SortError Feature) × ι
  /-- A bound on what is still handed out. -/
  left : ι → Nat
  left_lt {source after : ι} {item : Except SortError Feature} :
    poll source = (some item, after) → left after < left source
  /-- Nothing comes behind the end. -/
  ended {source after : ι} : poll source = (none, after) → (poll after).1 = none

namespace Feed

variable {ι : Type}

/-- Everything that a source hands out. -/
def items (feed : Feed ι) (source : ι) : Stream Feature :=
  match h : feed.poll source with
  | (none, _) => []
  | (some item, after) =>
      have := feed.left_lt h
      item :: feed.items after
termination_by feed.left source

/-- Hand out the items of a list. -/
def ofList : Feed (Stream Feature) where
  poll
    | [] => (none, [])
    | item :: rest => (some item, rest)
  left := List.length
  left_lt {source after item} h := by
    cases source with
    | nil => cases h
    | cons first rest =>
        cases h
        exact Nat.lt_succ_self _
  ended {source after} h := by
    cases source with
    | nil =>
        cases h
        rfl
    | cons first rest => cases h

end Feed

end Grouping

/-- A merge that has come to its end stays there. -/
theorem Merge.next_none {merge after : Merge} {disk behind : Disk}
    (h : merge.next disk = (none, after, behind)) : (after.next behind).1 = none := by
  have finished : after.finished = true := by
    unfold next at h
    split at h
    next finished =>
      cases h
      exact finished
    · split at h
      · cases h
      · split at h
        · cases h
          rfl
        · unfold pop at h
          split at h <;> cases h
  rw [next, if_pos finished]

namespace Grouping

/-- Hand out what is merged. -/
def Feed.ofMerge : Feed (Merge × Disk) where
  poll source := source.1.next source.2
  left source := source.1.unread
  left_lt := Merge.unread_next_lt
  ended := Merge.next_none

/-! ### The grouper -/

/-- A grouper and the source it asks. -/
structure Grouper (ι : Type) where
  source : ι
  /-- The first feature of the next group, if the last group ended with it. -/
  pending : Option Feature
  /-- The error that the last group ended with. -/
  fault : Option SortError
  /-- The identifier of the last group's tile. -/
  last : Option Nat
  done : Bool
  deriving DecidableEq, Repr

/-- What the grouper hands out: a group or an error, or nothing once it is at its end. -/
abbrev Grouper.Item := Option (Except SortError TileFeatures)

namespace Grouper

variable {ι : Type}

def start (source : ι) : Grouper ι := ⟨source, none, none, none, false⟩

/-- Hand out an error and nothing behind it. -/
def fail (grouper : Grouper ι) (error : SortError) : Item × Grouper ι :=
  (some (.error error), { grouper with pending := none, done := true })

/-- Take features while they belong to tile `id`, and the item behind them. -/
def collect (feed : Feed ι) (id : Nat) (source : ι) :
    List Feature × Option (Except SortError Feature) × ι :=
  match h : feed.poll source with
  | (some (.ok feature), after) =>
      have := feed.left_lt h
      if feature.tileId = id then
        let (features, stop, behind) := collect feed id after
        (feature :: features, stop, behind)
      else ([], some (.ok feature), after)
  | (some (.error error), after) => ([], some (.error error), after)
  | (none, after) => ([], none, after)
termination_by feed.left source

/-- The feature or error that the next group starts with. -/
def first (feed : Feed ι) (grouper : Grouper ι) :
    Option (Except SortError Feature) × Grouper ι :=
  match grouper.pending with
  | some feature => (some (.ok feature), { grouper with pending := none })
  | none =>
      let (item, source) := feed.poll grouper.source
      (item, { grouper with source := source })

/-- Hand out the group that starts with a feature, unless its tile does not follow the last one. -/
def gather (feed : Feed ι) (grouper : Grouper ι) (feature : Feature) : Item × Grouper ι :=
  match grouper.last.filter (feature.tileId ≤ ·) with
  | some previous => grouper.fail (.outOfOrder previous feature.tileId)
  | none =>
      match feature.tile? with
      | .error error => grouper.fail (.corruption (.tile error))
      | .ok tile =>
          let (features, stop, source) := collect feed feature.tileId grouper.source
          let grouper := { grouper with source := source, last := some feature.tileId }
          (some (.ok ⟨tile, feature :: features⟩),
            match stop with
            | none => grouper
            | some (.ok next) => { grouper with pending := some next }
            | some (.error error) => { grouper with fault := some error })

/-- Hand out the next group or the error that ends them. -/
def next (feed : Feed ι) (grouper : Grouper ι) : Item × Grouper ι :=
  if grouper.done then (none, grouper)
  else
    match grouper.fault with
    | some error => { grouper with fault := none }.fail error
    | none =>
        match grouper.first feed with
        | (none, grouper) => (none, { grouper with done := true })
        | (some (.error error), grouper) => grouper.fail error
        | (some (.ok feature), grouper) => grouper.gather feed feature

/-- What so many calls hand out. -/
def take (feed : Feed ι) : Nat → Grouper ι → List Item × Grouper ι
  | 0, grouper => ([], grouper)
  | count + 1, grouper =>
      let (item, grouper) := grouper.next feed
      let (items, grouper) := take feed count grouper
      (item :: items, grouper)

end Grouper
end Grouping
end TileBindery
