import TileBindery.Grouping.Grouper
import TileBindery.Proofs.Grouping.Runs
import TileBindery.Proofs.Spill.Merging

/-!
# Calls of the grouper

Call by call, the grouper hands out the groups of everything that its source hands out, and nothing
behind them.  Once it has handed out an error or come to its end, its state stays as it is, and with it
the state of the source, which is not asked again.
-/

namespace TileBindery
namespace Grouping

/-! ### Sources -/

namespace Feed

variable {ι : Type} {feed : Feed ι} {source after : ι}

theorem items_of_poll {item : Except SortError Feature} (h : feed.poll source = (some item, after)) :
    feed.items source = item :: feed.items after := by
  rw [items]
  split
  next ended => cases h.symm.trans ended
  next polled =>
    cases h.symm.trans polled
    rfl

theorem items_of_end (h : feed.poll source = (none, after)) : feed.items source = [] := by
  rw [items]
  split
  next => rfl
  next polled => cases h.symm.trans polled

theorem items_behind_end (h : feed.poll source = (none, after)) : feed.items after = [] :=
  items_of_end (Prod.ext (feed.ended h) rfl)

/-- The source hands out the first item and keeps the others. -/
theorem poll_eq (feed : Feed ι) (source : ι) :
    (feed.poll source).1 = (feed.items source).head? ∧
      feed.items (feed.poll source).2 = (feed.items source).tail := by
  cases polled : feed.poll source with
  | mk item after =>
      cases item with
      | none =>
          rw [items_of_end polled]
          exact ⟨rfl, items_behind_end polled⟩
      | some item =>
          rw [items_of_poll polled]
          exact ⟨rfl, rfl⟩

theorem items_ofList (stream : Stream Feature) : ofList.items stream = stream := by
  induction stream with
  | nil => exact items_of_end rfl
  | cons item rest ih =>
      have polled : ofList.poll (item :: rest) = (some item, rest) := rfl
      rw [items_of_poll polled, ih]

theorem items_ofMerge (merge : Merge) (disk : Disk) :
    ofMerge.items (merge, disk) = (merge.drain disk).1 := by
  induction merge, disk using Merge.drain.induct with
  | case1 merge disk after behind h =>
      have polled : ofMerge.poll (merge, disk) = (none, after, behind) := h
      rw [Merge.drain_of_end h, items_of_end polled]
  | case2 merge disk item after behind h lt _ _ _ _ ih =>
      have polled : ofMerge.poll (merge, disk) = (some item, after, behind) := h
      rw [Merge.drain_of_next h, items_of_poll polled, ih]

end Feed

/-! ### Calls -/

namespace Grouper

variable {ι : Type} {feed : Feed ι}

theorem collect_of_ok {id : Nat} {source after : ι} {feature : Feature}
    (polled : feed.poll source = (some (.ok feature), after)) :
    collect feed id source =
      if feature.tileId = id then
        (feature :: (collect feed id after).1, (collect feed id after).2)
      else ([], some (.ok feature), after) := by
  rw [collect]
  split
  next found =>
    cases polled.symm.trans found
    rfl
  next found => cases polled.symm.trans found
  next found => cases polled.symm.trans found

/-- The source is asked no further behind an error or its end. -/
theorem collect_of_stop {id : Nat} {source after : ι} {stop : Option (Except SortError Feature)}
    (polled : feed.poll source = (stop, after)) (no_feature : ∀ feature, stop ≠ some (.ok feature)) :
    collect feed id source = ([], stop, after) := by
  rw [collect]
  split
  next found =>
    cases polled.symm.trans found
    exact absurd rfl (no_feature _)
  next found =>
    cases polled.symm.trans found
    rfl
  next found =>
    cases polled.symm.trans found
    rfl

/-- The features of a tile are taken up to the item behind them. -/
theorem spanTile_items (id : Nat) (source : ι) :
    spanTile id (feed.items source) =
      ((collect feed id source).1,
        (collect feed id source).2.1.toList ++ feed.items (collect feed id source).2.2) := by
  induction source using collect.induct feed id with
  | case1 source feature after polled _ own _ _ _ _ ih =>
      rw [Feed.items_of_poll polled, spanTile, if_pos own, ih, collect_of_ok polled, if_pos own]
  | case2 source feature after polled _ other =>
      rw [Feed.items_of_poll polled, spanTile, if_neg other, collect_of_ok polled, if_neg other]
      rfl
  | case3 source error after polled =>
      rw [Feed.items_of_poll polled, spanTile, collect_of_stop polled (by simp)]
      rfl
  | case4 source after polled =>
      rw [Feed.items_of_end polled, spanTile, collect_of_stop polled (by simp)]
      rw [Feed.items_behind_end polled]
      rfl

/-- The items that the grouper has not made groups of. -/
def waiting (feed : Feed ι) (grouper : Grouper ι) : Stream Feature :=
  grouper.pending.toList.map .ok ++ feed.items grouper.source

/-- The groups that are still handed out. -/
def ahead (feed : Feed ι) (grouper : Grouper ι) : Stream TileFeatures :=
  if grouper.done then []
  else
    match grouper.fault with
    | some error => [.error error]
    | none => groupsAfter grouper.last (grouper.waiting feed)

/-- A group starts with the first of these items. -/
theorem first_eq {grouper after : Grouper ι} {item : Option (Except SortError Feature)}
    (found : grouper.first feed = (item, after)) :
    item = (grouper.waiting feed).head? ∧ feed.items after.source = (grouper.waiting feed).tail ∧
      after = { grouper with pending := none, source := after.source } := by
  cases grouper with
  | mk source pending fault last done =>
      cases pending with
      | some feature =>
          cases found
          exact ⟨rfl, rfl, rfl⟩
      | none =>
          cases found
          exact ⟨(feed.poll_eq source).1, (feed.poll_eq source).2, rfl⟩

/-- A feature that a group can start with makes the next group, any other one an error. -/
theorem gather_eq (grouper : Grouper ι) (feature : Feature) (going : grouper.done = false)
    (quiet : grouper.fault = none) (fresh : grouper.pending = none) :
    (grouper.gather feed feature).1 =
        (groupsAfter grouper.last (.ok feature :: feed.items grouper.source)).head? ∧
      (grouper.gather feed feature).2.ahead feed =
        (groupsAfter grouper.last (.ok feature :: feed.items grouper.source)).tail := by
  rw [groupsAfter, gather]
  cases follows : grouper.last.filter (feature.tileId ≤ ·) with
  | some previous => exact ⟨rfl, rfl⟩
  | none =>
      cases named : feature.tile? with
      | error error => exact ⟨rfl, rfl⟩
      | ok tile =>
          simp only [spanTile_items]
          refine ⟨rfl, ?_⟩
          cases (collect feed feature.tileId grouper.source).2.1 with
          | none => simp [ahead, waiting, going, quiet, fresh]
          | some item =>
              cases item with
              | ok next => simp [ahead, waiting, going, quiet]
              | error error =>
                  rw [ahead, if_neg (by simp [going]), List.tail_cons, Option.toList_some,
                    List.singleton_append, groupsAfter]

/-- A call hands out the next group. -/
theorem next_eq (feed : Feed ι) (grouper : Grouper ι) :
    (grouper.next feed).1 = (grouper.ahead feed).head? ∧
      (grouper.next feed).2.ahead feed = (grouper.ahead feed).tail := by
  rw [next, ahead]
  cases going : grouper.done with
  | true => simp [ahead, going]
  | false =>
      cases quiet : grouper.fault with
      | some error => exact ⟨rfl, rfl⟩
      | none =>
          simp only [Bool.false_eq_true, if_false]
          cases found : grouper.first feed with
          | mk item after =>
              obtain ⟨head, tail, state⟩ := first_eq found
              cases item with
              | none =>
                  rw [List.head?_eq_none_iff.1 head.symm, groupsAfter]
                  exact ⟨rfl, rfl⟩
              | some item =>
                  rw [List.eq_cons_of_mem_head? head.symm, ← tail]
                  cases item with
                  | error error =>
                      rw [groupsAfter]
                      exact ⟨rfl, rfl⟩
                  | ok feature =>
                      have last : after.last = grouper.last := by rw [state]
                      rw [← last]
                      exact gather_eq after feature (by rw [state]; exact going)
                        (by rw [state]; exact quiet) (by rw [state])

/-- Call by call, the groups that are ahead are handed out, and nothing behind them. -/
theorem take_eq (count : Nat) (grouper : Grouper ι) :
    (take feed count grouper).1 = (List.range count).map fun call => (grouper.ahead feed)[call]? := by
  induction count generalizing grouper with
  | zero => rfl
  | succ count ih =>
      obtain ⟨head, tail⟩ := next_eq feed grouper
      rw [take, List.range_succ_eq_map, List.map_cons, List.map_map, ← List.head?_eq_getElem?, ← head]
      refine congrArg (_ :: ·) ((ih _).trans (List.map_congr_left fun call _ => ?_))
      rw [tail, List.getElem?_tail]
      rfl

theorem ahead_start (source : ι) : (start source).ahead feed = groups (feed.items source) := rfl

/-! ### Behind the end -/

theorem next_of_done {grouper : Grouper ι} (done : grouper.done = true) :
    grouper.next feed = (none, grouper) := if_pos done

theorem take_of_done {grouper : Grouper ι} (done : grouper.done = true) (count : Nat) :
    take feed count grouper = (List.replicate count none, grouper) := by
  induction count with
  | zero => rfl
  | succ count ih =>
      rw [take, next_of_done done]
      simp only [ih, List.replicate_succ]

theorem done_of_gather {grouper after : Grouper ι} {feature : Feature} {item : Item}
    (gathered : grouper.gather feed feature = (item, after))
    (no_group : ∀ group, item ≠ some (.ok group)) : after.done = true := by
  rw [gather] at gathered
  split at gathered
  next =>
    cases gathered
    rfl
  next =>
    split at gathered
    next =>
      cases gathered
      rfl
    next =>
      cases gathered
      exact absurd rfl (no_group _)

/-- A call that hands out no group ends the grouper. -/
theorem done_of_next {grouper after : Grouper ι} {item : Item}
    (called : grouper.next feed = (item, after)) (no_group : ∀ group, item ≠ some (.ok group)) :
    after.done = true := by
  rw [next] at called
  split at called
  next done =>
    cases called
    exact done
  next =>
    split at called
    next =>
      cases called
      rfl
    next =>
      split at called
      next =>
        cases called
        rfl
      next =>
        cases called
        rfl
      next => exact done_of_gather called no_group

theorem group_or_end (feed : Feed ι) (grouper : Grouper ι) :
    (∃ group, (grouper.next feed).1 = some (.ok group)) ∨
      ∀ count, take feed count (grouper.next feed).2 =
        (List.replicate count none, (grouper.next feed).2) := by
  by_cases group : ∃ group, (grouper.next feed).1 = some (.ok group)
  · exact .inl group
  · exact .inr (take_of_done (done_of_next (Prod.ext rfl rfl) (not_exists.1 group)))

/-- The calls of a grouper hand out the groups of everything that its source hands out, and these are
the ones that the description gives: one group a run, then the error that ends them, then nothing.
Groups have features, their tiles ascend, and their features are the first ones of the source.  A call
that hands out no group leaves a state that no later call changes, and all of them hand out nothing.
The source is a part of that state, so even one that counts how often it is asked stays the same. -/
theorem take_start (feed : Feed ι) (source : ι) :
    (∀ count, (take feed count (start source)).1 =
      (List.range count).map fun call => (groups (feed.items source))[call]?) ∧
    (∃ made behind failure,
      Grouped none (feed.items source) made behind failure ∧
      (∀ others after error, Grouped none (feed.items source) others after error →
        made = others ∧ failure = error) ∧
      groups (feed.items source) = made.map .ok ++ ending failure ∧
      (∀ group ∈ made, group.features ≠ []) ∧
      made.Pairwise (fun one next => one.tile.id < next.tile.id) ∧
      (made.flatMap (·.features)).map .ok <+: feed.items source) ∧
    ∀ grouper : Grouper ι, (∃ group, (grouper.next feed).1 = some (.ok group)) ∨
      ∀ count, take feed count (grouper.next feed).2 =
        (List.replicate count none, (grouper.next feed).2) := by
  obtain ⟨made, behind, failure, grouped, groups_eq⟩ := grouped_groupsAfter none (feed.items source)
  refine ⟨fun count => ?_, ⟨made, behind, failure, grouped, fun _ _ _ => grouped.unique, groups_eq,
    fun group => grouped.features_ne_nil, List.pairwise_map.1 grouped.ascending,
    grouped.features_prefix⟩, group_or_end feed⟩
  rw [take_eq, ahead_start]

end Grouper
end Grouping
end TileBindery
