import TileBindery.Proofs.Lists
import TileBindery.Proofs.Spill.MergeOrder

/-!
# What a merge hands out

Every source of a merge stands for the placed features that it shows and that can be read behind it.
Taking the first source with the least key takes the first feature of their stable order, and the
sources that are left stand for the rest.  So a merge hands out the features of its runs in order, up
to the first behind which a run cannot be read on.
-/

namespace TileBindery

namespace MergeSource

open Sorter

/-- The number that a source is chosen by. -/
def key (source : MergeSource) : Nat := keyOf source.head

theorem splitLeast_eq_none {sources : List MergeSource} (h : splitLeast sources = none) :
    sources = [] := by
  cases sources with
  | nil => rfl
  | cons source rest =>
      simp only [splitLeast] at h
      split at h
      · simp at h
      · split at h <;> simp at h

/-- The source that is taken shows the least key, and is the first to show it. -/
theorem least_of_splitLeast {sources : List MergeSource} {split : MergeSplit}
    (h : splitLeast sources = some split) :
    (∀ source ∈ split.before, split.least.key < source.key) ∧
      ∀ source ∈ split.after, split.least.key ≤ source.key := by
  induction sources generalizing split with
  | nil => simp [splitLeast] at h
  | cons source rest ih =>
      simp only [splitLeast] at h
      split at h
      next => cases h; simp
      next inner found =>
        obtain ⟨above, least⟩ := ih found
        split at h
        next lower =>
          cases h
          refine ⟨fun other member => ?_, least⟩
          rcases List.mem_cons.1 member with rfl | behind
          · exact UInt64.lt_iff_toNat_lt.1 lower
          · exact above other behind
        next lower =>
          cases h
          refine ⟨by simp, fun other member => ?_⟩
          have source_le : source.key ≤ inner.least.key := by
            rw [UInt64.not_lt, UInt64.le_iff_toNat_le] at lower
            exact lower
          rw [eq_of_splitLeast found, List.mem_append, List.mem_cons] at member
          rcases member with front | rfl | back
          · exact Nat.le_of_lt (Nat.lt_of_le_of_lt source_le (above other front))
          · exact source_le
          · exact Nat.le_trans source_le (least other back)

/-- The placed features that a source stands for, if it belongs to run number `run` and shows the
feature at `position`. -/
def tape (disk : Disk) (run position : Nat) (source : MergeSource) : List PlacedFeature :=
  PlacedFeature.place run (source.run.contents disk).fault position
    (source.head :: (source.run.contents disk).features)

/-- A source stands for placed features. -/
def StandsFor (disk : Disk) (source : MergeSource) (placed : List PlacedFeature) : Prop :=
  ∃ run position, placed = source.tape disk run position

theorem StandsFor.congr {disk other : Disk} (same : other.files = disk.files)
    {source : MergeSource} {placed : List PlacedFeature} (stands : source.StandsFor disk placed) :
    source.StandsFor other placed := by
  obtain ⟨run, position, rfl⟩ := stands
  exact ⟨run, position, by rw [tape, tape, Run.contents_congr same]⟩

/-- A source stands for the feature that it shows and for what can be read behind it. -/
theorem StandsFor.exists_cons {disk : Disk} {source : MergeSource} {placed : List PlacedFeature}
    (stands : source.StandsFor disk placed) :
    ∃ first rest, placed = first :: rest ∧ first.feature = source.head := by
  obtain ⟨run, position, rfl⟩ := stands
  exact ⟨_, _, rfl, rfl⟩

end MergeSource

namespace Merge

open PlacedFeature

/-- What a merge is still to hand out on a disk. -/
inductive Yields (disk : Disk) (merge : Merge) : List (Except SortError Feature) → Prop
  /-- Nothing more. -/
  | finished (h : merge.finished = true) : Yields disk merge []
  /-- The error of a run that could not be read on. -/
  | failing (running : merge.finished = false) {error : SortError}
      (pending : merge.pending = some error) : Yields disk merge [.error error]
  /-- The features that its sources stand for, in order. -/
  | merging (running : merge.finished = false) (quiet : merge.pending = none)
      {tapes : List (List PlacedFeature)}
      (stand : List.Forall₂ (MergeSource.StandsFor disk) merge.sources tapes)
      (sorted : ∀ tape ∈ tapes, tape.Pairwise fun a b => a.key ≤ b.key)
      {order : List PlacedFeature} (ordered : StableOrder PlacedFeature.key tapes.flatten order) :
      Yields disk merge (handOut order)

/-- What a merge hands out depends on what files hold, not on where they stand. -/
theorem Yields.congr {disk other : Disk} (same : other.files = disk.files) {merge : Merge}
    {items : List (Except SortError Feature)} (yields : merge.Yields disk items) :
    merge.Yields other items := by
  cases yields with
  | finished h => exact .finished h
  | failing running pending => exact .failing running pending
  | merging running quiet stand sorted ordered =>
      exact .merging running quiet (stand.imp fun _ _ => MergeSource.StandsFor.congr same) sorted
        ordered

/-- Taking the first feature of a tape takes the first of all features in order, if no tape in front
begins with as low a key and none behind with a lower one. -/
theorem exists_order_behind {before after : List (List PlacedFeature)} {first : PlacedFeature}
    {rest order : List PlacedFeature}
    (above : ∀ tape ∈ before, ∀ placed ∈ tape, first.key < placed.key)
    (own : ∀ placed ∈ rest, first.key ≤ placed.key)
    (least : ∀ tape ∈ after, ∀ placed ∈ tape, first.key ≤ placed.key)
    (ordered : StableOrder PlacedFeature.key (before ++ (first :: rest) :: after).flatten order) :
    ∃ behind, order = first :: behind ∧
      StableOrder PlacedFeature.key (before ++ rest :: after).flatten behind := by
  obtain ⟨behind, ordered_behind⟩ : ∃ behind, StableOrder PlacedFeature.key
      (before.flatten ++ (rest ++ after.flatten)) behind := ⟨_, stableOrder_mergeSort _ _⟩
  have whole := ordered_behind.cons
    (fun placed member => by
      obtain ⟨tape, tape_mem, placed_mem⟩ := List.mem_flatten.1 member
      exact above tape tape_mem placed placed_mem)
    (fun placed member => by
      rcases List.mem_append.1 member with same | other
      · exact own placed same
      · obtain ⟨tape, tape_mem, placed_mem⟩ := List.mem_flatten.1 other
        exact least tape tape_mem placed placed_mem)
  refine ⟨behind, ordered.unique ?_, ?_⟩
  · simpa using whole
  · simpa using ordered_behind

/-- Every feature that a source stands for has at least the key that it shows. -/
theorem key_le_of_standsFor {disk : Disk} {source : MergeSource} {tape : List PlacedFeature}
    (stands : source.StandsFor disk tape) (sorted : tape.Pairwise fun a b => a.key ≤ b.key)
    {placed : PlacedFeature} (member : placed ∈ tape) : source.key ≤ placed.key := by
  obtain ⟨first, rest, rfl, shown⟩ := stands.exists_cons
  have first_key : first.key = source.key := by rw [PlacedFeature.key, shown, MergeSource.key]
  rcases List.mem_cons.1 member with rfl | behind
  · exact Nat.le_of_eq first_key.symm
  · exact first_key ▸ List.rel_of_pairwise_cons sorted behind

theorem exists_tape {disk : Disk} {sources : List MergeSource} {tapes : List (List PlacedFeature)}
    (stand : List.Forall₂ (MergeSource.StandsFor disk) sources tapes)
    {tape : List PlacedFeature} (member : tape ∈ tapes) :
    ∃ source ∈ sources, source.StandsFor disk tape := by
  induction stand with
  | nil => exact absurd member List.not_mem_nil
  | cons stands _ ih =>
      rcases List.mem_cons.1 member with rfl | behind
      · exact ⟨_, List.mem_cons_self, stands⟩
      · obtain ⟨source, source_mem, found⟩ := ih behind
        exact ⟨source, List.mem_cons_of_mem _ source_mem, found⟩

/-- What a merge hands out next, when the source to take from is known. -/
theorem yields_pop {disk : Disk} {merge : Merge} {split : MergeSplit}
    {tapes : List (List PlacedFeature)} {order : List PlacedFeature}
    (found : MergeSource.splitLeast merge.sources = some split)
    (running : merge.finished = false) (quiet : merge.pending = none)
    (stand : List.Forall₂ (MergeSource.StandsFor disk) merge.sources tapes)
    (sorted : ∀ tape ∈ tapes, tape.Pairwise fun a b => a.key ≤ b.key)
    (ordered : StableOrder PlacedFeature.key tapes.flatten order) :
    (merge.pop split disk).1 = (handOut order).head? ∧
      (merge.pop split disk).2.1.Yields (merge.pop split disk).2.2 (handOut order).tail := by
  obtain ⟨above, least⟩ := MergeSource.least_of_splitLeast found
  rw [MergeSource.eq_of_splitLeast found] at stand
  obtain ⟨before, _, rfl, stand_before, stand_behind⟩ := exists_of_forall₂_append stand
  cases stand_behind with
  | @cons _ tape _ after stands stand_after =>
  obtain ⟨run, position, rfl⟩ := stands
  have own_sorted := sorted _ (List.mem_append_right _ List.mem_cons_self)
  have sorted_before : ∀ tape ∈ before, tape.Pairwise fun a b => a.key ≤ b.key :=
    fun tape member => sorted tape (List.mem_append_left _ member)
  have sorted_after : ∀ tape ∈ after, tape.Pairwise fun a b => a.key ≤ b.key :=
    fun tape member => sorted tape (List.mem_append_right _ (List.mem_cons_of_mem _ member))
  obtain ⟨behind, rfl, ordered_behind⟩ := exists_order_behind
    (fun tape member placed placed_mem => by
      obtain ⟨source, source_mem, stands⟩ := exists_tape stand_before member
      exact Nat.lt_of_lt_of_le (above source source_mem)
        (key_le_of_standsFor stands (sorted_before tape member) placed_mem))
    (fun placed placed_mem => List.rel_of_pairwise_cons own_sorted placed_mem)
    (fun tape member placed placed_mem => by
      obtain ⟨source, source_mem, stands⟩ := exists_tape stand_after member
      exact Nat.le_trans (least source source_mem)
        (key_le_of_standsFor stands (sorted_after tape member) placed_mem))
    ordered
  unfold pop
  simp only
  split
  next head rest taken =>
    have contents := Run.contents_of_some taken
    rw [contents] at ordered_behind
    rw [MergeSource.tape, contents] at own_sorted
    simp only [handOut, contents, RunContents.cons, List.isEmpty_cons, Bool.false_eq_true, if_false]
    refine ⟨rfl, .merging ?_ ?_
      (List.rel_append stand_before (.cons ⟨run, position + 1, rfl⟩ stand_after))
      (fun tape member => ?_) ordered_behind⟩
    · exact running
    · exact quiet
    rcases List.mem_append.1 member with front | back
    · exact sorted_before tape front
    · rcases List.mem_cons.1 back with rfl | back
      · exact own_sorted.of_cons
      · exact sorted_after tape back
  next rest taken =>
    have contents := Run.contents_of_none taken
    have same : (rest.drop disk).files = disk.files := Run.files_drop rest disk
    rw [contents] at ordered_behind
    simp only [handOut, contents, List.isEmpty_nil, if_true]
    refine ⟨rfl, .merging ?_ ?_
      ((List.rel_append stand_before stand_after).imp fun _ _ stands => stands.congr same)
      (fun tape member => ?_) ?_⟩
    · exact running
    · exact quiet
    · rcases List.mem_append.1 member with front | back
      · exact sorted_before tape front
      · exact sorted_after tape back
    · simpa [place] using ordered_behind
  next error rest taken =>
    have contents := Run.contents_of_error taken
    simp only [handOut, contents, List.isEmpty_nil, if_true]
    exact ⟨rfl, .failing (by exact running) rfl⟩

/-- A merge hands out the first of the items that it is still to hand out, and then the others. -/
theorem yields_next {disk : Disk} {merge : Merge} {items : List (Except SortError Feature)}
    (yields : merge.Yields disk items) :
    (merge.next disk).1 = items.head? ∧
      (merge.next disk).2.1.Yields (merge.next disk).2.2 items.tail := by
  cases yields with
  | finished h =>
      simp only [next, h, if_true]
      exact ⟨rfl, .finished h⟩
  | failing running pending =>
      simp only [next, running, Bool.false_eq_true, if_false, pending]
      exact ⟨rfl, .finished rfl⟩
  | merging running quiet stand sorted ordered =>
      simp only [next, running, Bool.false_eq_true, if_false, quiet]
      cases found : MergeSource.splitLeast merge.sources with
      | none =>
          rw [MergeSource.splitLeast_eq_none found] at stand
          cases stand
          rw [ordered.eq_nil_of_nil]
          exact ⟨rfl, .finished rfl⟩
      | some split => exact yields_pop found running quiet stand sorted ordered

/-- Whatever number of items is asked for, a merge hands out those it has and nothing behind
them. -/
theorem take_of_yields {disk : Disk} {merge : Merge} {items : List (Except SortError Feature)}
    (yields : merge.Yields disk items) (count : Nat) :
    (merge.take count disk).1 = (List.range count).map fun index => items[index]? := by
  induction count generalizing disk merge items with
  | zero => rfl
  | succ count ih =>
      obtain ⟨first, behind⟩ := yields_next yields
      rw [List.range_succ_eq_map, List.map_cons, List.map_map]
      simp only [take]
      rw [ih behind, first, List.head?_eq_getElem?]
      congr 1
      apply List.map_congr_left
      intro index _
      simp

theorem drain_of_end {merge after : Merge} {disk behind : Disk}
    (done : merge.next disk = (none, after, behind)) :
    merge.drain disk = ([], after, behind) := by
  rw [drain]
  split
  next found =>
    cases done.symm.trans found
    rfl
  next found => cases done.symm.trans found

theorem drain_of_next {merge after : Merge} {disk behind : Disk} {item : Except SortError Feature}
    (handed : merge.next disk = (some item, after, behind)) :
    merge.drain disk = (item :: (after.drain behind).1, (after.drain behind).2) := by
  rw [drain]
  split
  next found => cases handed.symm.trans found
  next found =>
    cases handed.symm.trans found
    rfl

/-- A run that fails behind its first feature ends a merge without others. -/
theorem drain_of_failed {disk : Disk} {feature : Feature} {run stalled : Run} {error : SortError}
    (failed : run.next disk = (.error error, stalled)) :
    (⟨[⟨feature, run⟩], none, none, false⟩ : Merge).drain disk =
      ([.ok feature, .error error], ⟨[], some stalled, none, true⟩, disk) := by
  have first : (⟨[⟨feature, run⟩], none, none, false⟩ : Merge).next disk =
      (some (.ok feature), ⟨[], some stalled, some error, false⟩, disk) := by
    simp [next, MergeSource.splitLeast, pop, failed]
  have second : (⟨[], some stalled, some error, false⟩ : Merge).next disk =
      (some (.error error), ⟨[], some stalled, none, true⟩, disk) := rfl
  have third : (⟨[], some stalled, none, true⟩ : Merge).next disk =
      (none, ⟨[], some stalled, none, true⟩, disk) := rfl
  rw [drain_of_next first, drain_of_next second, drain_of_end third]

/-- Draining a merge gives the items that it has. -/
theorem drain_of_yields {disk : Disk} {merge : Merge} {items : List (Except SortError Feature)}
    (yields : merge.Yields disk items) : (merge.drain disk).1 = items := by
  induction items generalizing disk merge with
  | nil =>
      obtain ⟨first, -⟩ := yields_next yields
      rw [drain_of_end (Prod.ext first rfl)]
  | cons item items ih =>
      obtain ⟨first, behind⟩ := yields_next yields
      rw [drain_of_next (Prod.ext first rfl)]
      exact congrArg (item :: ·) (ih behind)

end Merge
end TileBindery
