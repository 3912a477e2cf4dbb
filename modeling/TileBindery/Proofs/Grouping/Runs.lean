import Mathlib.Data.List.SplitBy
import TileBindery.Proofs.Grouping

/-!
# Groups and runs

The features in front of the first error of a stream fall into runs of one tile.  Every run makes one
group, up to the first run whose tile does not lie behind the tile in front of it or whose identifier
names no tile.  That run makes an error; if there is none, the first error of the stream ends the
groups.
-/

namespace TileBindery
namespace Grouping

/-! ### Runs -/

/-- The items in front of the first error. -/
def sound {α : Type} : Stream α → List α
  | .ok item :: rest => item :: sound rest
  | .error _ :: _ => []
  | [] => []

/-- The first error. -/
def fault {α : Type} : Stream α → Option SortError
  | .ok _ :: rest => fault rest
  | .error error :: _ => some error
  | [] => none

/-- The longest runs of features that belong to one tile. -/
def runsOf (features : List Feature) : List (List Feature) :=
  features.splitBy fun a b => a.tileId == b.tileId

theorem sound_prefix {α : Type} (stream : Stream α) : (sound stream).map .ok <+: stream := by
  induction stream with
  | nil => exact List.nil_prefix
  | cons item rest ih =>
      cases item with
      | ok item => exact List.cons_prefix_cons.2 ⟨rfl, ih⟩
      | error error => exact List.nil_prefix

/-- The features of a tile at the front of a stream leave the rest as it is. -/
theorem sound_spanTile (id : Nat) (stream : Stream Feature) :
    (spanTile id stream).1 ++ sound (spanTile id stream).2 = sound stream ∧
      fault (spanTile id stream).2 = fault stream := by
  induction stream with
  | nil => exact ⟨rfl, rfl⟩
  | cons item rest ih =>
      cases item with
      | error error => exact ⟨rfl, rfl⟩
      | ok feature =>
          rw [spanTile]
          split
          · exact ⟨congrArg (feature :: ·) ih.1, ih.2⟩
          · exact ⟨rfl, rfl⟩

/-- They belong to the tile, and the next feature does not. -/
theorem tileId_spanTile (id : Nat) (stream : Stream Feature) :
    (∀ feature ∈ (spanTile id stream).1, feature.tileId = id) ∧
      ∀ feature ∈ (sound (spanTile id stream).2).head?, feature.tileId ≠ id := by
  induction stream with
  | nil => simp [spanTile, sound]
  | cons item rest ih =>
      cases item with
      | error error => simp [spanTile, sound]
      | ok feature =>
          rw [spanTile]
          split
          next own => exact ⟨List.forall_mem_cons.2 ⟨own, ih.1⟩, ih.2⟩
          next other => simpa [sound] using other

/-- A run that another tile follows is the first one. -/
theorem runsOf_append {id : Nat} {run others : List Feature} (some_feature : run ≠ [])
    (own : ∀ feature ∈ run, feature.tileId = id)
    (other : ∀ feature ∈ others.head?, feature.tileId ≠ id) :
    runsOf (run ++ others) = run :: runsOf others := by
  have chain : run.IsChain fun a b => (a.tileId == b.tileId) = true := by
    refine (List.pairwise_of_forall_mem_list fun a a_mem b b_mem => ?_).isChain
    rw [own a a_mem, own b b_mem, beq_self_eq_true]
  have alone : runsOf run = [run] := List.splitBy_of_isChain some_feature chain
  have border := List.splitBy_append (r := fun a b : Feature => a.tileId == b.tileId)
    (l := run) (m := others) fun a a_last b b_first => by
      rw [own a (List.mem_of_mem_getLast? a_last), beq_eq_false_iff_ne]
      exact (other b b_first).symm
  rw [runsOf, border]
  exact congrArg (· ++ runsOf others) alone

theorem runsOf_spanTile (first : Feature) (rest : Stream Feature) :
    runsOf (sound (.ok first :: rest)) =
      (first :: (spanTile first.tileId rest).1) :: runsOf (sound (spanTile first.tileId rest).2) := by
  have ids := tileId_spanTile first.tileId rest
  rw [sound, ← (sound_spanTile first.tileId rest).1, ← List.cons_append]
  exact runsOf_append (List.cons_ne_nil _ _) (List.forall_mem_cons.2 ⟨rfl, ids.1⟩) ids.2

/-! ### One group a run -/

/-- Why the groups end in front of a run that starts with a feature: its tile does not lie behind the
last one, or its identifier names no tile. -/
inductive Refuses (last : Option Nat) (first : Feature) : SortError → Prop
  | order {id : Nat} (previous : last = some id) (le : first.tileId ≤ id) :
      Refuses last first (.outOfOrder id first.tileId)
  | tile {error : TileError} (above : ∀ id ∈ last, id < first.tileId)
      (unnamed : first.tile? = .error error) : Refuses last first (.corruption (.tile error))

/-- The groups of a stream behind the tile `previous`, the runs that make none and the error that
ends the groups. -/
structure Grouped (previous : Option Nat) (stream : Stream Feature) (made : List TileFeatures)
    (behind : List (List Feature)) (failure : Option SortError) : Prop where
  /-- Every run in front makes one group of its features. -/
  runs : runsOf (sound stream) = made.map (·.features) ++ behind
  /-- Its tile is the one that the features name. -/
  tiles : ∀ group ∈ made, ∀ feature ∈ group.features, feature.tile? = .ok group.tile
  ascending : (previous.toList ++ made.map (·.tile.id)).Pairwise (· < ·)
  /-- If every run makes a group, the stream's own error ends them. -/
  whole : behind = [] → failure = fault stream
  /-- The first run that makes none is refused. -/
  refused : ∀ run ∈ behind.head?, ∃ first ∈ run.head?, ∃ error ∈ failure,
    Refuses ((made.map (·.tile.id)).getLast?.or previous) first error

theorem filter_eq_none {last : Option Nat} {id : Nat} :
    last.filter (id ≤ ·) = none ↔ ∀ previous ∈ last, previous < id := by
  rw [Option.filter_eq_none_iff]
  simp

variable {previous : Option Nat} {first : Feature} {rest : Stream Feature}

/-- A run that is refused ends the groups at once. -/
theorem grouped_of_refuses {error : SortError} (refuses : Refuses previous first error) :
    Grouped previous (.ok first :: rest) [] (runsOf (sound (.ok first :: rest))) (some error) := by
  refine ⟨rfl, by simp, by simp, ?_, ?_⟩
  · rw [runsOf_spanTile]
    exact fun none => absurd none (List.cons_ne_nil _ _)
  · rw [runsOf_spanTile]
    rintro run ⟨⟩
    exact ⟨first, rfl, error, rfl, refuses⟩

/-- A run whose tile lies behind the last one makes a group in front of the others. -/
theorem Grouped.cons {tile : Tile} {made : List TileFeatures} {behind : List (List Feature)}
    {failure : Option SortError} (above : ∀ id ∈ previous, id < first.tileId)
    (named : first.tile? = .ok tile)
    (grouped : Grouped (some first.tileId) (spanTile first.tileId rest).2 made behind failure) :
    Grouped previous (.ok first :: rest)
      (⟨tile, first :: (spanTile first.tileId rest).1⟩ :: made) behind failure := by
  have own : tile.id = first.tileId := Tile.id_of_ofId? named
  constructor
  case runs =>
    rw [runsOf_spanTile, grouped.runs]
    rfl
  case tiles =>
    refine List.forall_mem_cons.2 ⟨fun feature member => ?_, grouped.tiles⟩
    have same : feature.tileId = first.tileId := by
      rcases List.mem_cons.1 member with rfl | later
      · rfl
      · exact (tileId_spanTile first.tileId rest).1 feature later
    rw [Feature.tile?, same]
    exact named
  case ascending =>
    have ascending : (first.tileId :: made.map (·.tile.id)).Pairwise (· < ·) := grouped.ascending
    rw [List.map_cons, own]
    cases previous with
    | none => exact ascending
    | some id =>
        refine List.pairwise_cons.2 ⟨List.forall_mem_cons.2 ⟨above id rfl, ?_⟩, ascending⟩
        exact fun later member =>
          Nat.lt_trans (above id rfl) ((List.pairwise_cons.1 ascending).1 later member)
  case whole =>
    intro none
    rw [grouped.whole none]
    exact (sound_spanTile first.tileId rest).2
  case refused =>
    have last : ((tile.id :: made.map (·.tile.id)).getLast?).or previous =
        (made.map (·.tile.id)).getLast?.or (some first.tileId) := by
      rw [List.getLast?_cons, own]
      cases (made.map (·.tile.id)).getLast? <;> rfl
    rw [List.map_cons, last]
    exact grouped.refused

/-- Every stream is grouped run by run. -/
theorem grouped_groupsAfter (previous : Option Nat) (stream : Stream Feature) :
    ∃ made behind failure, Grouped previous stream made behind failure ∧
      groupsAfter previous stream = made.map .ok ++ ending failure := by
  induction previous, stream using groupsAfter.induct with
  | case1 previous =>
      refine ⟨[], [], none, ⟨rfl, by simp, by simp, fun _ => rfl, by simp⟩, ?_⟩
      rw [groupsAfter]
      rfl
  | case2 previous error rest =>
      refine ⟨[], [], some error, ⟨rfl, by simp, by simp, fun _ => rfl, by simp⟩, ?_⟩
      rw [groupsAfter]
      rfl
  | case3 previous first rest id unordered =>
      obtain ⟨last, le⟩ := Option.filter_eq_some_iff.1 unordered
      refine ⟨[], _, _, grouped_of_refuses (.order last (by simpa using le)), ?_⟩
      rw [groupsAfter]
      simp only [unordered]
      rfl
  | case4 previous first rest follows error unnamed =>
      refine ⟨[], _, _, grouped_of_refuses (.tile (filter_eq_none.1 follows) unnamed), ?_⟩
      rw [groupsAfter]
      simp only [follows, unnamed]
      rfl
  | case5 previous first rest follows tile named ih =>
      obtain ⟨made, behind, failure, grouped, made_eq⟩ := ih
      refine ⟨_, behind, failure, grouped.cons (filter_eq_none.1 follows) named, ?_⟩
      rw [groupsAfter]
      simp only [follows, named, made_eq]
      rfl

/-! ### What the groups of a whole stream are -/

section Whole

variable {stream : Stream Feature} {made : List TileFeatures} {behind : List (List Feature)}
  {failure : Option SortError}

namespace Grouped

theorem features_ne_nil (grouped : Grouped previous stream made behind failure)
    {group : TileFeatures} (member : group ∈ made) : group.features ≠ [] := by
  have run : group.features ∈ runsOf (sound stream) := by
    rw [grouped.runs]
    exact List.mem_append_left _ (List.mem_map_of_mem member)
  exact List.ne_nil_of_mem_splitBy run

/-- The features of the groups are the first ones of the stream. -/
theorem features_prefix (grouped : Grouped previous stream made behind failure) :
    (made.flatMap (·.features)).map .ok <+: stream := by
  have whole : (made.map (·.features) ++ behind).flatten = sound stream := by
    rw [← grouped.runs]
    exact List.flatten_splitBy _ _
  have front : made.flatMap (·.features) <+: sound stream := by
    rw [← whole, List.flatten_append, List.flatMap_def]
    exact List.prefix_append _ _
  exact (front.map Except.ok).trans <| sound_prefix stream

/-- The tile that the features of a group name is the group's. -/
theorem tile_of_head (grouped : Grouped previous stream made behind failure)
    {group : TileFeatures} (member : group ∈ made) :
    ∃ first ∈ group.features.head?, first.tile? = .ok group.tile := by
  obtain ⟨first, rest, features⟩ := List.exists_cons_of_ne_nil (grouped.features_ne_nil member)
  refine ⟨first, by rw [features]; rfl, grouped.tiles group member first ?_⟩
  rw [features]
  exact List.mem_cons_self

/-- Groups are told apart by their features. -/
theorem eq_of_features {others : List TileFeatures} {after : List (List Feature)}
    {error : Option SortError} (grouped : Grouped previous stream made behind failure)
    (again : Grouped previous stream others after error) {group other : TileFeatures}
    (member : group ∈ made) (other_mem : other ∈ others)
    (same : group.features = other.features) : group = other := by
  obtain ⟨first, first_mem, named⟩ := grouped.tile_of_head member
  obtain ⟨head, head_mem, other_named⟩ := again.tile_of_head other_mem
  rw [← same] at head_mem
  obtain rfl := Option.mem_unique first_mem head_mem
  cases group
  cases other
  cases named.symm.trans other_named
  cases same
  rfl

/-- A run that makes a group is not refused. -/
theorem not_refuses {early late : List TileFeatures} {group : TileFeatures} {first : Feature}
    {error : SortError}
    (grouped : Grouped previous stream (early ++ group :: late) behind failure)
    (head : first ∈ group.features.head?) :
    ¬Refuses ((early.map (·.tile.id)).getLast?.or previous) first error := by
  have named : first.tile? = .ok group.tile :=
    grouped.tiles group (by simp) first (List.mem_of_mem_head? head)
  have own : group.tile.id = first.tileId := Tile.id_of_ofId? named
  rintro (⟨last, le⟩ | ⟨-, unnamed⟩)
  case order id =>
    have before : id ∈ previous.toList ++ early.map (·.tile.id) := by
      rcases Option.or_eq_some_iff.1 last with found | ⟨-, found⟩
      · exact List.mem_append_right _ (List.mem_of_mem_getLast? found)
      · exact List.mem_append_left _ (by simp [found])
    have ascending := grouped.ascending
    rw [List.map_append, ← List.append_assoc, List.map_cons] at ascending
    have lt : id < group.tile.id :=
      (List.pairwise_append.1 ascending).2.2 id before _ List.mem_cons_self
    omega
  case tile => cases named.symm.trans unnamed

end Grouped

theorem Refuses.unique {last : Option Nat} {first : Feature} {error other : SortError}
    (refuses : Refuses last first error) (again : Refuses last first other) : error = other := by
  cases refuses with
  | order previous le =>
      cases again with
      | order same _ =>
          cases previous.symm.trans same
          rfl
      | tile above _ => exact absurd le (Nat.not_le.2 (above _ previous))
  | tile above unnamed =>
      cases again with
      | order previous le => exact absurd le (Nat.not_le.2 (above _ previous))
      | tile _ same =>
          cases unnamed.symm.trans same
          rfl

namespace Grouped

variable {others : List TileFeatures} {after mid : List (List Feature)} {error : Option SortError}

/-- Groups that begin alike are the same groups, since the first run that is refused ends them. -/
theorem unique_of_append (grouped : Grouped previous stream made behind failure)
    (again : Grouped previous stream others after error)
    (longer : others.map (·.features) = made.map (·.features) ++ mid)
    (rest : behind = mid ++ after) : made = others ∧ failure = error := by
  obtain ⟨early, late, rfl, early_eq, late_eq⟩ := List.map_eq_append_iff.1 longer
  obtain rfl : early = made := by
    refine List.ext_getElem (by simpa using congrArg List.length early_eq) fun place lt lt' => ?_
    refine again.eq_of_features grouped
      (List.mem_append_left _ (List.getElem_mem lt)) (List.getElem_mem lt') ?_
    simpa [lt, lt'] using congrArg (·[place]?) early_eq
  cases late with
  | cons group late =>
      -- the group of the second description is a run that the first one refuses
      rw [← late_eq, List.map_cons, List.cons_append] at rest
      obtain ⟨first, head, _, -, refuses⟩ := grouped.refused group.features (by rw [rest]; rfl)
      exact absurd refuses (again.not_refuses head)
  | nil =>
      obtain rfl : mid = [] := late_eq.symm
      obtain rfl : behind = after := rest
      rw [List.append_nil] at again ⊢
      refine ⟨rfl, ?_⟩
      cases behind with
      | nil => rw [grouped.whole rfl, again.whole rfl]
      | cons run behind =>
          obtain ⟨first, head, _, fails, refuses⟩ := grouped.refused run rfl
          obtain ⟨first', head', _, fails', refuses'⟩ := again.refused run rfl
          obtain rfl := Option.mem_unique head head'
          obtain rfl := refuses.unique refuses'
          exact fails.trans fails'.symm

/-- The description leaves no choice. -/
theorem unique (grouped : Grouped previous stream made behind failure)
    (again : Grouped previous stream others after error) : made = others ∧ failure = error := by
  have same := grouped.runs.symm.trans again.runs
  rcases List.append_eq_append_iff.1 same with ⟨mid, longer, rest⟩ | ⟨mid, longer, rest⟩
  · exact grouped.unique_of_append again longer rest
  · obtain ⟨made_eq, failure_eq⟩ := again.unique_of_append grouped longer rest
    exact ⟨made_eq.symm, failure_eq.symm⟩

end Grouped

end Whole

end Grouping
end TileBindery
