import Mathlib.Data.List.Dedup
import TileBindery.Grouping
import TileBindery.Proofs.StableOrder

/-!
# The groups of sorted features

Features in key order fall into one group a tile.  The main statement gives the groups for features
that were put in order: the identifiers of their tiles, each once and ascending, and for each tile
all its features by their order in the tile and then by arrival, up to the first identifier that
names no tile.
-/

namespace TileBindery
namespace Grouping

/-- A stream up to its first error. -/
def untilError {α : Type} : Stream α → Stream α
  | [] => []
  | .ok item :: rest => .ok item :: untilError rest
  | .error error :: _ => [.error error]

/-- The identifiers of the tiles that features belong to, each once and ascending. -/
def tileIds (features : List Feature) : List Nat :=
  (features.map (·.tileId)).dedup.mergeSort fun a b => decide (a ≤ b)

/-- The features of a tile by their order in the tile; ties keep the order of arrival. -/
def featuresOf (features : List Feature) (id : Nat) : List Feature :=
  (features.filter (·.tileId = id)).mergeSort fun a b => decide (a.secondary ≤ b.secondary)

/-- The group that some features make up for an identifier, which has to name a tile. -/
def groupOf (id : Nat) (features : List Feature) : Except SortError TileFeatures :=
  match Tile.ofId? id with
  | .error error => .error (.corruption (.tile error))
  | .ok tile => .ok ⟨tile, features⟩

/-! ### Identifiers of tiles -/

theorem mem_tileIds {features : List Feature} {id : Nat} :
    id ∈ tileIds features ↔ ∃ feature ∈ features, feature.tileId = id := by
  rw [tileIds, List.mem_mergeSort, List.mem_dedup, List.mem_map]

theorem pairwise_tileIds (features : List Feature) : (tileIds features).Pairwise (· < ·) := by
  have ascending := stableOrder_mergeSort (fun id : Nat => id) (features.map (·.tileId)).dedup
  have distinct : (tileIds features).Nodup :=
    (List.mergeSort_perm _ _).nodup_iff.2 (List.nodup_dedup _)
  refine (ascending.ascending.and distinct).imp ?_
  rintro a b ⟨le, ne⟩
  exact Nat.lt_of_le_of_ne le ne

/-- Identifiers that ascend are those of the tiles if they are the same ones. -/
theorem eq_tileIds {features : List Feature} {ids : List Nat} (ascending : ids.Pairwise (· < ·))
    (same : ∀ id, id ∈ ids ↔ ∃ feature ∈ features, feature.tileId = id) :
    ids = tileIds features := by
  have distinct : ids.Nodup := ascending.imp Nat.ne_of_lt
  have others : (tileIds features).Nodup := (pairwise_tileIds features).imp Nat.ne_of_lt
  have perm : ids.Perm (tileIds features) :=
    (List.perm_ext_iff_of_nodup distinct others).2 fun id => (same id).trans mem_tileIds.symm
  exact perm.eq_of_pairwise (fun a b _ _ ab ba => absurd ab (Nat.lt_asymm ba)) ascending
    (pairwise_tileIds features)

theorem tileIds_perm {features others : List Feature} (perm : features.Perm others) :
    tileIds features = tileIds others := by
  refine eq_tileIds (pairwise_tileIds features) fun id => ?_
  rw [mem_tileIds]
  exact ⟨fun ⟨feature, member, own⟩ => ⟨feature, perm.mem_iff.1 member, own⟩,
    fun ⟨feature, member, own⟩ => ⟨feature, perm.mem_iff.2 member, own⟩⟩

/-- The tile of the first feature comes first, then the tiles of the others. -/
theorem tileIds_cons {first : Feature} {rest : List Feature}
    (least : ∀ feature ∈ rest, first.tileId ≤ feature.tileId) :
    tileIds (first :: rest) =
      first.tileId :: tileIds (rest.filter (·.tileId ≠ first.tileId)) := by
  refine (eq_tileIds (List.pairwise_cons.2 ⟨?_, pairwise_tileIds _⟩) fun id => ?_).symm
  · intro id member
    obtain ⟨feature, kept, rfl⟩ := mem_tileIds.1 member
    obtain ⟨feature_mem, other⟩ := List.mem_filter.1 kept
    have other : feature.tileId ≠ first.tileId := by simpa using other
    exact Nat.lt_of_le_of_ne (least feature feature_mem) other.symm
  · rw [List.mem_cons, mem_tileIds]
    constructor
    · rintro (rfl | ⟨feature, kept, own⟩)
      · exact ⟨first, List.mem_cons_self, rfl⟩
      · exact ⟨feature, List.mem_cons_of_mem _ (List.mem_of_mem_filter kept), own⟩
    · rintro ⟨feature, member, rfl⟩
      rcases List.mem_cons.1 member with rfl | behind
      · exact .inl rfl
      · by_cases same : feature.tileId = first.tileId
        · exact .inl same
        · exact .inr ⟨feature, List.mem_filter.2 ⟨behind, by simpa using same⟩, rfl⟩

/-! ### Groups of ascending features -/

/-- What ends a stream of features or groups: nothing, or an error. -/
def ending {α : Type} (fault : Option SortError) : Stream α := fault.toList.map .error

theorem spanTile_ending (id : Nat) (fault : Option SortError) :
    spanTile id (ending fault) = ([], ending fault) := by
  cases fault <;> rfl

theorem spanTile_of_ascending {id : Nat} {features : List Feature} (fault : Option SortError)
    (ascends : features.Pairwise fun a b => a.tileId ≤ b.tileId)
    (least : ∀ feature ∈ features, id ≤ feature.tileId) :
    spanTile id (features.map .ok ++ ending fault) =
      (features.filter (·.tileId = id),
        (features.filter (·.tileId ≠ id)).map .ok ++ ending fault) := by
  induction features with
  | nil => exact spanTile_ending id fault
  | cons first rest ih =>
      rw [List.pairwise_cons] at ascends
      have behind := ih ascends.2 fun feature member =>
        least feature (List.mem_cons_of_mem _ member)
      rw [List.map_cons, List.cons_append, spanTile]
      by_cases own : first.tileId = id
      · rw [if_pos own, behind]
        simp [own]
      · have above : id < first.tileId :=
          Nat.lt_of_le_of_ne (least first List.mem_cons_self) (Ne.symm own)
        have others : ∀ feature ∈ first :: rest, feature.tileId ≠ id := by
          intro feature member
          rcases List.mem_cons.1 member with rfl | later
          · exact own
          · exact Nat.ne_of_gt (Nat.lt_of_lt_of_le above (ascends.1 feature later))
        have no_own : (first :: rest).filter (·.tileId = id) = [] := by
          rw [List.filter_eq_nil_iff]
          intro feature member
          simpa using others feature member
        have all_other : (first :: rest).filter (·.tileId ≠ id) = first :: rest := by
          rw [List.filter_eq_self]
          intro feature member
          simpa using others feature member
        rw [if_neg own, no_own, all_other, List.map_cons, List.cons_append]

/-- The features of a tile other than the first are those behind the first tile. -/
theorem groupOf_behind {first : Feature} {rest : List Feature} {id : Nat}
    (member : id ∈ tileIds (rest.filter (·.tileId ≠ first.tileId))) :
    groupOf id ((first :: rest).filter (·.tileId = id)) =
      groupOf id ((rest.filter (·.tileId ≠ first.tileId)).filter (·.tileId = id)) := by
  obtain ⟨feature, kept, rfl⟩ := mem_tileIds.1 member
  have other : feature.tileId ≠ first.tileId := by
    simpa using (List.mem_filter.1 kept).2
  rw [List.filter_filter, List.filter_cons_of_neg (by simpa using other.symm)]
  congr 1
  apply List.filter_congr
  intro each _
  by_cases same : each.tileId = feature.tileId
  · simp [same, other]
  · simp [same]

/-- Features that ascend make one group a tile, up to the first identifier that names no tile; an
error behind them comes behind the last group. -/
theorem groupsAfter_of_ascending {features : List Feature} {previous : Option Nat}
    (fault : Option SortError)
    (ascends : features.Pairwise fun a b => a.tileId ≤ b.tileId)
    (above : ∀ id ∈ previous, ∀ feature ∈ features, id < feature.tileId) :
    groupsAfter previous (features.map .ok ++ ending fault) =
      untilError ((tileIds features).map (fun id =>
        groupOf id (features.filter (·.tileId = id))) ++ ending fault) := by
  induction size : features.length using Nat.strongRecOn generalizing features previous with
  | ind count ih =>
      cases features with
      | nil =>
          have none : tileIds [] = [] := by simp [tileIds]
          rw [none]
          cases fault <;> rw [ending, List.map_nil, List.nil_append, groupsAfter.eq_def] <;> rfl
      | cons first rest =>
          have least : ∀ feature ∈ rest, first.tileId ≤ feature.tileId :=
            (List.pairwise_cons.1 ascends).1
          have span := spanTile_of_ascending fault ascends.of_cons least
          have follows : previous.filter (first.tileId ≤ ·) = none := by
            rw [Option.filter_eq_none_iff]
            intro id member
            simpa using above id member first List.mem_cons_self
          rw [tileIds_cons least, List.map_cons, List.map_cons, List.cons_append, groupsAfter]
          simp only [follows, span, Feature.tile?]
          cases decoded : Tile.ofId? first.tileId with
          | error error =>
              rw [groupOf, decoded]
              rfl
          | ok tile =>
              have shorter : (rest.filter (·.tileId ≠ first.tileId)).length < count := by
                rw [← size, List.length_cons]
                exact Nat.lt_succ_of_le (List.length_filter_le _ _)
              have beyond : ∀ id ∈ some first.tileId,
                  ∀ feature ∈ rest.filter (·.tileId ≠ first.tileId), id < feature.tileId := by
                rintro id ⟨⟩ feature member
                obtain ⟨feature_mem, other⟩ := List.mem_filter.1 member
                have other : feature.tileId ≠ first.tileId := by simpa using other
                exact Nat.lt_of_le_of_ne (least feature feature_mem) other.symm
              have own : (first :: rest).filter (·.tileId = first.tileId) =
                  first :: rest.filter (·.tileId = first.tileId) := by simp
              have head : groupOf first.tileId ((first :: rest).filter
                  (·.tileId = first.tileId)) =
                    .ok ⟨tile, first :: rest.filter (·.tileId = first.tileId)⟩ := by
                rw [own, groupOf, decoded]
              have others : (tileIds (rest.filter (·.tileId ≠ first.tileId))).map (fun id =>
                  groupOf id ((first :: rest).filter (·.tileId = id))) =
                    (tileIds (rest.filter (·.tileId ≠ first.tileId))).map fun id =>
                      groupOf id ((rest.filter (·.tileId ≠ first.tileId)).filter
                        (·.tileId = id)) :=
                List.map_congr_left fun _ => groupOf_behind
              rw [head, others, List.cons_append, untilError]
              simp only
              rw [ih _ shorter (ascends.of_cons.filter _) beyond rfl]

/-! ### Groups of features that were put in order -/

theorem tileId_le_of_key {a b : Feature} (le : Sorter.keyOf a ≤ Sorter.keyOf b) :
    a.tileId ≤ b.tileId := Nat.div_le_div_right le

/-- Key order is the order in the tile among the features of one tile. -/
theorem filter_inKeyOrder (features : List Feature) (id : Nat) :
    (Sorter.inKeyOrder features).filter (·.tileId = id) = featuresOf features id := by
  have order := Sorter.stableOrder_inKeyOrder features
  have sorted : StableOrder Feature.secondary (features.filter (·.tileId = id))
      ((Sorter.inKeyOrder features).filter (·.tileId = id)) := by
    constructor
    · refine (order.ascending.filter _).imp_of_mem ?_
      intro a b a_mem b_mem le
      have a_id : a.tileId = id := by simpa using (List.mem_filter.1 a_mem).2
      have b_id : b.tileId = id := by simpa using (List.mem_filter.1 b_mem).2
      unfold Feature.tileId at a_id b_id
      unfold Sorter.keyOf at le
      unfold Feature.secondary
      omega
    · intro value
      -- features of the tile with one value of the secondary key share their whole key
      have narrow (l : List Feature) :
          (l.filter (·.tileId = id)).filter (·.secondary = value) =
            ((l.filter (Sorter.keyOf · = id * 2 ^ 32 + value)).filter (·.tileId = id)).filter
              (·.secondary = value) := by
        simp only [List.filter_filter]
        apply List.filter_congr
        intro feature _
        have whole : feature.secondary = value ∧ feature.tileId = id →
            Sorter.keyOf feature = id * 2 ^ 32 + value := by
          rw [Feature.secondary, Feature.tileId, Sorter.keyOf]
          omega
        rw [Bool.eq_iff_iff]
        simp only [Bool.and_eq_true, decide_eq_true_eq]
        exact ⟨fun both => ⟨both.1, both.2, whole both⟩, fun all => ⟨all.1, all.2.1⟩⟩
      rw [narrow, order.ties, ← narrow]
  exact sorted.unique (stableOrder_mergeSort Feature.secondary _)

/-- The groups of features in key order, or of a front of them. -/
theorem groups_of_ascending {features : List Feature} (fault : Option SortError)
    (ascends : features.Pairwise fun a b => Sorter.keyOf a ≤ Sorter.keyOf b) :
    groups (features.map .ok ++ ending fault) =
      untilError ((tileIds features).map (fun id =>
        groupOf id (features.filter (·.tileId = id))) ++ ending fault) :=
  groupsAfter_of_ascending fault (ascends.imp tileId_le_of_key) (by simp)

/-- The groups of features that were put in key order. -/
theorem groups_inKeyOrder (features : List Feature) :
    groups ((Sorter.inKeyOrder features).map .ok) =
      untilError ((tileIds features).map fun id => groupOf id (featuresOf features id)) := by
  have order := Sorter.stableOrder_inKeyOrder features
  have grouped := groups_of_ascending none order.ascending
  simpa only [ending, Option.toList_none, List.map_nil, List.append_nil, tileIds_perm order.perm,
    filter_inKeyOrder] using grouped

end Grouping
end TileBindery
