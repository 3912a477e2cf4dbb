import TileBindery.Proofs.Pipeline.Batches
import TileBindery.Proofs.Pipeline.Run
import TileBindery.Proofs.Spill.Fraying

/-!
# Tiles of features that cannot all be read

When a chunk file cannot be read to its end, the features that are handed out are a front of all
features in key order, and an error follows.  Every group in front of the error but the last holds all
features of its tile.  The last may lack some: it is rendered and handed to the archive if a batch ends
with it, and given up with its batch if the error falls into that.
-/

namespace TileBindery

open Grouping

namespace Grouping

/-! ### Streams up to their first error -/

theorem prefix_untilError {α : Type} {items : Stream α} {l : List α} :
    l.map .ok <+: untilError items ↔ l.map .ok <+: items := by
  induction items generalizing l with
  | nil => rfl
  | cons item rest ih =>
      cases l with
      | nil => simp
      | cons a l =>
          cases item with
          | ok b => rw [untilError, List.map_cons, List.cons_prefix_cons, List.cons_prefix_cons, ih]
          | error error =>
              rw [untilError, List.map_cons, List.cons_prefix_cons, List.cons_prefix_cons]
              simp

theorem prefix_of_prefix_ending {α : Type} {items : Stream α} {l : List α}
    {fault : Option SortError} (front : l.map .ok <+: items ++ ending fault) :
    l.map .ok <+: items := by
  cases fault with
  | none => rwa [ending, Option.toList_none, List.map_nil, List.append_nil] at front
  | some error =>
      rcases List.prefix_concat_iff.1 front with same | inside
      · have member : (.error error : Except SortError α) ∈ l.map .ok := by
          rw [same]
          exact List.mem_append_right _ List.mem_cons_self
        obtain ⟨_, -, impossible⟩ := List.mem_map.1 member
        cases impossible
      · exact inside

theorem untilError_map_ok {α : Type} (l : List α) (fault : Option SortError) :
    untilError (l.map .ok ++ ending fault) = l.map .ok ++ ending fault := by
  induction l with
  | nil => cases fault <;> rfl
  | cons a l ih => rw [List.map_cons, List.cons_append, untilError, ih]

/-! ### Fronts of features in key order -/

variable {features front : List Feature} {id : Nat}

/-- A front of all features holds some of a tile's features, from the first on. -/
theorem filter_prefix_featuresOf (begins : front <+: Sorter.inKeyOrder features) (id : Nat) :
    front.filter (·.tileId = id) <+: featuresOf features id := by
  rw [← filter_inKeyOrder]
  exact begins.filter _

/-- It holds all features of the tiles in front of another that it has reached. -/
theorem filter_eq_featuresOf (begins : front <+: Sorter.inKeyOrder features) {later : Feature}
    (reached : later ∈ front) (above : id < later.tileId) :
    front.filter (·.tileId = id) = featuresOf features id := by
  have order := (Sorter.stableOrder_inKeyOrder features).ascending
  obtain ⟨behind, whole⟩ := begins
  rw [← whole] at order
  have none_behind : behind.filter (·.tileId = id) = [] := by
    rw [List.filter_eq_nil_iff]
    intro feature member
    have le := tileId_le_of_key ((List.pairwise_append.1 order).2.2 later reached feature member)
    simp only [decide_eq_true_eq]
    omega
  rw [← filter_inKeyOrder, ← whole, List.filter_append, none_behind, List.append_nil]

/-- A feature in front of an error makes a group. -/
theorem groups_of_cut {feature : Feature} {tile : Tile} (named : feature.tile? = .ok tile)
    (error : SortError) :
    groups [.ok feature, .error error] = [.ok ⟨tile, [feature]⟩, .error error] := by
  rw [groups, groupsAfter, Option.filter_none]
  simp only [named, spanTile]
  rw [groupsAfter]

end Grouping

namespace TileWriting

variable {σ η ρ : Type} {profile : Profile ρ} {size : Nat} {features : List Feature}
  {contents : RunContents}

theorem group_of_groupOf {id : Nat} {own : List Feature} {group : TileFeatures}
    (made : groupOf id own = .ok group) : group.tile.id = id ∧ group.features = own := by
  rw [groupOf] at made
  split at made
  · cases made
  next tile named =>
    cases made
    exact ⟨Tile.id_of_ofId? named, rfl⟩

/-- A tile that lacks features is the last of a full batch. -/
structure Cut (size : Nat) (features : List Feature) (tiles : List (TileFeatures × RenderedTile))
    (made : TileFeatures × RenderedTile) : Prop where
  /-- It is the last tile. -/
  last : ∃ front, tiles = front ++ [made]
  /-- A batch ends with it. -/
  batch : size ∣ tiles.length
  /-- It is rendered from the first of its features. -/
  front : made.1.features <+: featuresOf features made.1.tile.id

/-- Of the tiles made from a front of all features only the last can lack some. -/
theorem Front.whole_or_cut {tiles : List (TileFeatures × RenderedTile)}
    {refused : Option PipelineError}
    (handed : Front profile size (groups contents.items) refused tiles)
    (begins : contents.FrontOf (Sorter.inKeyOrder features))
    {made : TileFeatures × RenderedTile} (member : made ∈ tiles) :
    made.1.features = featuresOf features made.1.tile.id ∨
      Cut size features tiles made ∧
        ∃ error, groups contents.items = (tiles.map (·.1)).map .ok ++ [.error error] := by
  have ascends := (Sorter.stableOrder_inKeyOrder features).ascending.sublist begins.front.sublist
  have grouped : groups contents.items = _ := groups_of_ascending contents.fault ascends
  have whole_front := handed.front
  rw [grouped, prefix_untilError] at whole_front
  obtain ⟨rest, split⟩ := prefix_of_prefix_ending whole_front
  obtain ⟨early, late, rfl⟩ := List.append_of_mem member
  rw [List.map_append, List.map_append, List.append_assoc] at split
  obtain ⟨before, _, ids, -, tail⟩ := List.map_eq_append_iff.1 split.symm
  obtain ⟨id, after, rfl, own, others⟩ := List.map_eq_cons_iff.1 tail
  obtain ⟨rfl, own_features⟩ := group_of_groupOf own
  rw [own_features]
  cases after with
  | cons later after =>
      left
      have ordered := pairwise_tileIds contents.features
      rw [ids, List.pairwise_append, List.pairwise_cons] at ordered
      obtain ⟨feature, reached, same⟩ := mem_tileIds.1 (show later ∈ tileIds contents.features by
        rw [ids]
        simp)
      exact filter_eq_featuresOf begins.front reached
        (same ▸ ordered.2.1.1 later List.mem_cons_self)
  | nil =>
      obtain ⟨no_late, rfl⟩ := List.append_eq_nil_iff.1 others.symm
      obtain rfl : late = [] := by simpa using no_late
      cases fault : contents.fault with
      | none =>
          left
          rw [begins.whole fault, filter_inKeyOrder]
      | some error =>
          right
          have stream : groups contents.items =
              ((early ++ [made]).map (·.1)).map .ok ++ [.error error] := by
            rw [grouped, fault, ← split, List.append_nil, ← List.map_append, ← List.map_append,
              untilError_map_ok]
            rfl
          refine ⟨⟨⟨early, rfl⟩, (handed.whole fun none => ?_).1, ?_⟩, error, stream⟩
          · have lengths := congrArg List.length ((handed.all none).trans stream)
            simp at lengths
          · rw [own_features]
            exact filter_prefix_featuresOf begins.front _

/-! ### Two features, the second of which is lost -/

/-- A sorter that has spilled two features of one tile. -/
def cutSorter : Sorter :=
  { Sorter.fresh "/" .standard with chunks := [Merge.cutChunk], nextChunk := 1 }

theorem frays_cutSorter [Codec] : cutSorter.Frays Merge.cutDisk [⟨3, [1]⟩, ⟨4, [2]⟩] := by
  have order : Sorter.inKeyOrder [⟨3, [1]⟩, ⟨4, [2]⟩] = [⟨3, [1]⟩, ⟨4, [2]⟩] :=
    Sorter.inKeyOrder_of_ascending (by decide)
  refine ⟨[[⟨3, [1]⟩, ⟨4, [2]⟩]], .cons ?_ .nil, rfl⟩
  rw [Merge.contents_cutChunk, order]
  exact ⟨⟨[⟨4, [2]⟩], rfl⟩, by simp⟩

/-- Its merge, which shows the first feature. -/
def cutMerge : Merge where
  sources := [⟨⟨3, [1]⟩, .chunk Merge.cutChunk
    ⟨"/cut.chunk", .ofCounts 0 2 false, 1, .plain ⟨0, 49, []⟩⟩⟩]
  stalled := none
  pending := none
  finished := false

/-- What its chunk ends with. -/
def cutError : SortError := .corruption (.cutRecords "/cut.chunk" 1 2)

section

attribute [local instance] Frame.codec

theorem sort_cutSorter :
    ∃ after, cutSorter.sort Merge.cutDisk = (.ok cutMerge, after, Merge.cutDisk) := by
  have started : Merge.ofRuns [Merge.cutChunk] [] Merge.cutDisk =
      (.ok cutMerge, Merge.cutDisk) := by decide +kernel
  refine ⟨cutSorter.emptied, Sorter.sort_of_merge rfl ?_⟩
  rw [show Sorter.inKeyOrder cutSorter.buffer.toList = [] from List.mergeSort_nil]
  exact started

theorem drain_cutMerge :
    (cutMerge.drain Merge.cutDisk).1 = [.ok ⟨3, [1]⟩, .error cutError] := by
  obtain ⟨stalled, failed⟩ : ∃ stalled, (Run.chunk Merge.cutChunk
      ⟨"/cut.chunk", .ofCounts 0 2 false, 1, .plain ⟨0, 49, []⟩⟩).next Merge.cutDisk =
        (.error cutError, stalled) := ⟨_, rfl⟩
  rw [cutMerge, Merge.drain_of_failed failed]

theorem groups_cutMerge :
    groups (cutMerge.drain Merge.cutDisk).1 =
      [.ok ⟨⟨0, 0, 0⟩, [⟨3, [1]⟩]⟩, .error cutError] := by
  rw [drain_cutMerge, groups_of_cut (show Feature.tile? ⟨3, [1]⟩ = .ok ⟨0, 0, 0⟩ from rfl)]

/-- In batches of one, a tile of the first feature alone is handed over. -/
theorem handed_cutMerge :
    handed Pipeline.payloads 1 (groups (cutMerge.drain Merge.cutDisk).1) =
      [(⟨⟨0, 0, 0⟩, [⟨3, [1]⟩]⟩, ⟨⟨0, 0, 0⟩, some [1], none⟩)] := by
  have first : renderBatch Pipeline.payloads [.ok ⟨⟨0, 0, 0⟩, [⟨3, [1]⟩]⟩] =
      .ok [(⟨⟨0, 0, 0⟩, [⟨3, [1]⟩]⟩, ⟨⟨0, 0, 0⟩, some [1], none⟩)] := rfl
  rw [groups_cutMerge, handed]
  simp only [Nat.sub_self, List.take_zero, List.drop_zero, first]
  rw [handed]
  rfl

theorem not_whole_cutMerge :
    [⟨3, [1]⟩] ≠ featuresOf [⟨3, [1]⟩, ⟨4, [2]⟩] (Tile.id ⟨0, 0, 0⟩) := by
  intro same
  have lengths := congrArg List.length same
  rw [featuresOf, List.length_mergeSort] at lengths
  exact absurd lengths (by decide)

/-- Not every tile that is handed over holds all features of its tile. -/
theorem not_handed_whole :
    ¬∀ (sorter after : Sorter) (disk behind : Disk) (merge : Merge) (features : List Feature)
      (size : Nat), 0 < size → sorter.Frays disk features →
      sorter.sort disk = (.ok merge, after, behind) →
      ∀ made ∈ handed Pipeline.payloads size (groups (merge.drain behind).1),
        made.1.features = featuresOf features made.1.tile.id := by
  intro whole
  obtain ⟨after, sorted⟩ := sort_cutSorter
  refine not_whole_cutMerge (whole _ _ _ _ _ _ 1 Nat.one_pos frays_cutSorter sorted
    (⟨⟨0, 0, 0⟩, [⟨3, [1]⟩]⟩, ⟨⟨0, 0, 0⟩, some [1], none⟩) ?_)
  rw [handed_cutMerge]
  exact List.mem_cons_self

end

end TileWriting
end TileBindery
