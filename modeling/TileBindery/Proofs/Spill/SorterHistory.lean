import TileBindery.Proofs.History
import TileBindery.Proofs.Spill.Sorting

/-!
# The life of a sorter

A sorter is called in any order, with any features, on a disk that others change between the calls,
so spills may fail at any time.  The main statement says what all such histories have in common: a
failed spill is the end of the sorter, its features are handed over once at most, and what is handed
over are the features it has accepted, each exactly once.
-/

namespace TileBindery

/-- What happens to a sorter. -/
inductive SorterEvent where
  /-- A feature is added, with this answer. -/
  | add (feature : Feature) (answer : Except SortError Unit)
  /-- The sorter is sorted, with this answer. -/
  | sort (answer : Except SortError Merge)
  /-- Others change the disk. -/
  | change

namespace SorterEvent

/-- The features of a history that were accepted, in order. -/
def accepted : List SorterEvent → List Feature
  | [] => []
  | .add feature (.ok ()) :: rest => feature :: accepted rest
  | _ :: rest => accepted rest

/-- A merge was handed out. -/
def isMerge : SorterEvent → Bool
  | .sort (.ok _) => true
  | _ => false

/-- A call was refused because a spill had failed.  The size of a payload is checked before. -/
def IsPoisoned : SorterEvent → Prop
  | .add feature answer => answer = .error
      (if ChunkRecord.maxPayload < feature.payload.length then
        .featureTooLarge feature.payload.length
      else .poisoned)
  | .sort answer => answer = .error .poisoned
  | .change => True

end SorterEvent

namespace Sorter

/-- Sorted parts hold the same features as what they were made of. -/
theorem perm_of_parts {parts slices : List (List Feature)}
    (sorted : List.Forall₂ (StableOrder keyOf) slices parts) :
    parts.flatten.Perm slices.flatten := by
  have order := stableOrder_mergeSort keyOf parts.flatten
  exact order.perm.symm.trans (StableOrder.of_parts sorted order).perm

section

variable [Codec]

/-- One event in the life of a sorter and its disk.  Changes to the disk by others leave the files
of the sorter's chunks alone. -/
inductive Step : Sorter × Disk → SorterEvent → Sorter × Disk → Prop where
  | add (sorter : Sorter) (disk : Disk) (feature : Feature) :
      Step (sorter, disk) (.add feature (sorter.add feature disk).1) (sorter.add feature disk).2
  | sort (sorter : Sorter) (disk : Disk) :
      Step (sorter, disk) (.sort (sorter.sort disk).1) (sorter.sort disk).2
  | change {sorter : Sorter} {disk other : Disk} (same : sorter.Undisturbed disk other) :
      Step (sorter, disk) .change (sorter, other)

/-! ### After a failed spill -/

theorem add_of_poisoned {sorter : Sorter} (poisoned : sorter.phase = .poisoned)
    (feature : Feature) (disk : Disk) :
    (SorterEvent.add feature (sorter.add feature disk).1).IsPoisoned ∧
      (sorter.add feature disk).2 = (sorter, disk) := by
  have result := added sorter feature disk
  generalize sorter.add feature disk = outcome at result
  cases result with
  | tooLarge large => exact ⟨by rw [SorterEvent.IsPoisoned, if_pos large], rfl⟩
  | refused fits => exact ⟨by rw [SorterEvent.IsPoisoned, if_neg (Nat.not_lt.2 fits)], rfl⟩
  | late _ other | buffered _ other | spilled _ other | lost _ other =>
      rw [poisoned] at other
      cases other

theorem sort_of_poisoned {sorter : Sorter} (poisoned : sorter.phase = .poisoned) (disk : Disk) :
    sorter.sort disk = (.error .poisoned, sorter, disk) := by
  rw [sort, poisoned]

/-- A poisoned sorter refuses everything. -/
theorem isPoisoned_of_history {state last : Sorter × Disk} {events : List SorterEvent}
    (history : History Step state events last) (poisoned : state.1.phase = .poisoned) :
    ∀ event ∈ events, event.IsPoisoned := by
  induction history with
  | nil => simp
  | @cons state next last event events step _ ih =>
      have stays : event.IsPoisoned ∧ next.1.phase = .poisoned := by
        cases step with
        | add sorter disk feature =>
            obtain ⟨refused, same⟩ := add_of_poisoned poisoned feature disk
            exact ⟨refused, by rw [same]; exact poisoned⟩
        | sort sorter disk =>
            rw [sort_of_poisoned poisoned]
            exact ⟨rfl, poisoned⟩
        | change => exact ⟨trivial, poisoned⟩
      intro other member
      rcases List.mem_cons.1 member with rfl | behind
      · exact stays.1
      · exact ih stays.2 other behind

theorem poisoned_of_device {state next : Sorter × Disk} {feature : Feature}
    {reason : DeviceError} (step : Step state (.add feature (.error (.device reason))) next) :
    next.1.phase = .poisoned := by
  generalize called : SorterEvent.add feature (.error (.device reason)) = event at step
  cases step with
  | add sorter disk other =>
      simp only [SorterEvent.add.injEq] at called
      obtain ⟨rfl, failed⟩ := called
      have result := added sorter feature disk
      generalize sorter.add feature disk = outcome at result failed
      cases result with
      | lost => rfl
      | tooLarge | refused | late | buffered | spilled => simp at failed
  | sort => simp at called
  | change => simp at called

/-! ### Handing over once -/

/-- A sorter that does not collect hands nothing out any more. -/
theorem not_collecting_of_history {state last : Sorter × Disk} {events : List SorterEvent}
    (history : History Step state events last) (closed : state.1.phase ≠ .collecting) :
    events.countP SorterEvent.isMerge = 0 ∧ last.1.phase ≠ .collecting := by
  induction history with
  | nil => exact ⟨rfl, closed⟩
  | @cons state next last event events step _ ih =>
      have stays : event.isMerge = false ∧ next.1.phase ≠ .collecting := by
        cases step with
        | add sorter disk feature =>
            refine ⟨rfl, ?_⟩
            have result := added sorter feature disk
            generalize sorter.add feature disk = outcome at result
            cases result with
            | tooLarge | refused | late => exact closed
            | buffered _ collecting | spilled _ collecting | lost _ collecting =>
                exact absurd collecting closed
        | sort sorter disk =>
            rw [sort]
            split
            next poisoned => exact ⟨rfl, closed⟩
            next handedOver => exact ⟨rfl, closed⟩
            next collecting => exact absurd collecting closed
        | change => exact ⟨rfl, closed⟩
      obtain ⟨none_behind, last_closed⟩ := ih stays.2
      refine ⟨?_, last_closed⟩
      rw [List.countP_cons_of_neg (by simp [stays.1]), none_behind]

theorem not_collecting_of_sort (sorter : Sorter) (disk : Disk) :
    (sorter.sort disk).2.1.phase ≠ .collecting := by
  rw [sort]
  split
  next poisoned => simp [poisoned]
  next handedOver => simp [handedOver]
  next => simp

theorem countP_isMerge_le {state last : Sorter × Disk} {events : List SorterEvent}
    (history : History Step state events last) : events.countP SorterEvent.isMerge ≤ 1 := by
  induction history with
  | nil => exact Nat.zero_le 1
  | @cons state next last event events step rest ih =>
      cases step with
      | add => simpa [List.countP_cons, SorterEvent.isMerge] using ih
      | sort sorter disk =>
          have closed := (not_collecting_of_history rest (not_collecting_of_sort sorter disk)).1
          rw [List.countP_cons, closed]
          split <;> simp
      | change => simpa [List.countP_cons, SorterEvent.isMerge] using ih

/-! ### What is handed over -/

/-- As long as a sorter collects, it holds exactly the features that were accepted. -/
theorem holds_of_history {state last : Sorter × Disk} {events : List SorterEvent}
    {held : List Feature} (history : History Step state events last)
    (bytes : state.1.config.chunkBytes < 2 ^ 64) (holds : state.1.Holds state.2 held) :
    last.1.Holds last.2 (held ++ SorterEvent.accepted events) ∧
        last.1.config = state.1.config ∨
      last.1.phase ≠ .collecting := by
  induction history generalizing held with
  | nil => exact .inl ⟨by rwa [SorterEvent.accepted, List.append_nil], rfl⟩
  | @cons state next last event events step rest ih =>
      cases step with
      | add sorter disk feature =>
          cases outcome : sorter.add feature disk with
          | mk answer behind =>
              obtain ⟨after, changed⟩ := behind
              rw [outcome] at rest ih
              cases answer with
              | ok =>
                  obtain ⟨next_holds, config, -⟩ := holds.add bytes outcome
                  have last_holds := ih (config ▸ bytes) next_holds
                  rwa [List.append_assoc, config] at last_holds
              | error error =>
                  rcases holds.add_error outcome with ⟨-, rfl, rfl⟩ | ⟨-, poisoned⟩
                  · exact ih bytes holds
                  · have closed : after.phase ≠ .collecting := by simp [poisoned]
                    exact .inr (not_collecting_of_history rest closed).2
      | sort sorter disk =>
          exact .inr (not_collecting_of_history rest (not_collecting_of_sort sorter disk)).2
      | change same => exact ih bytes (holds.of_undisturbed same)

/-- A feature that is not accepted is refused without a trace, or a spill fails. -/
theorem add_error_of_history {state : Sorter × Disk} {last after : Sorter} {left behind : Disk}
    {events : List SorterEvent} {held : List Feature} {feature : Feature} {error : SortError}
    (history : History Step state events (last, left)) (bytes : state.1.config.chunkBytes < 2 ^ 64)
    (holds : state.1.Holds state.2 held)
    (failed : last.add feature left = (.error error, after, behind)) :
    ((error = .alreadySorted ∨ error = .poisoned ∨
        error = .featureTooLarge feature.payload.length) ∧ after = last ∧ behind = left) ∨
      (∃ reason, error = .device reason) ∧
        ((last.push feature).spill left).1 = .error error := by
  have result := added last feature left
  rw [failed] at result
  cases result with
  | tooLarge => exact .inl ⟨.inr (.inr rfl), rfl, rfl⟩
  | refused => exact .inl ⟨.inr (.inl rfl), rfl, rfl⟩
  | late => exact .inl ⟨.inl rfl, rfl, rfl⟩
  | lost _ collecting lost =>
      rcases holds_of_history history bytes holds with ⟨last_holds, -⟩ | closed
      · have device := (last_holds.add_error failed).resolve_left (by
          rintro ⟨-, same, -⟩
          have phase := congrArg Sorter.phase same
          rw [collecting] at phase
          cases phase)
        refine .inr ⟨device.1, ?_⟩
        rw [spill_eq, lost]
      · exact absurd collecting closed

/-- Whatever happens to a sorter in whatever order: once a spill has failed, all later calls are
refused; its features are handed over once at most; what is handed over are the accepted features,
each exactly once, if packing loses none; and a feature that is not accepted changes nothing unless a
spill fails. -/
theorem history_of_create {directory : String} {config : SpillConfig} {disk begun left : Disk}
    {sorter last : Sorter} {events : List SorterEvent} (bytes : config.chunkBytes < 2 ^ 64)
    (created : create directory config disk = (.ok sorter, begun))
    (history : History Step (sorter, begun) events (last, left)) :
    (∀ front feature reason back,
      events = front ++ .add feature (.error (.device reason)) :: back →
        ∀ event ∈ back, event.IsPoisoned) ∧
    events.countP SorterEvent.isMerge ≤ 1 ∧
    ((config.compress = true → Codec.Lossless) →
      ∀ merge after behind, last.sort left = (.ok merge, after, behind) →
        (∃ parts : List (List Feature),
          last.chunks.map (Chunk.contents left) = parts.map (⟨·, none⟩) ∧
          (parts.flatten ++ last.buffer.toList).Perm (SorterEvent.accepted events)) ∧
        (merge.drain behind).1 = (inKeyOrder (SorterEvent.accepted events)).map .ok) ∧
    ∀ feature error after behind, last.add feature left = (.error error, after, behind) →
      ((error = .alreadySorted ∨ error = .poisoned ∨
          error = .featureTooLarge feature.payload.length) ∧ after = last ∧ behind = left) ∨
        (∃ reason, error = .device reason) ∧
          ((last.push feature).spill left).1 = .error error := by
  obtain ⟨valid, rfl⟩ := eq_fresh_of_create created
  have begins : (fresh directory config).Holds begun [] := holds_fresh begun valid
  refine ⟨?_, countP_isMerge_le history, ?_, ?_⟩
  · rintro front feature reason back rfl
    obtain ⟨middle, -, behind⟩ := history.split
    cases behind with
    | cons step rest => exact isPoisoned_of_history rest (poisoned_of_device step)
  · intro lossless merge after behind sorted
    obtain ⟨holds, kept⟩ := (holds_of_history history bytes begins).resolve_right
      (not_not_intro (collecting_of_merge sorted))
    rw [List.nil_append] at holds
    have last_lossless : last.config.compress = true → Codec.Lossless := by
      rw [kept]
      exact lossless
    obtain ⟨parts, slices, contents, parts_sorted, whole⟩ := holds.contents last_lossless
    obtain ⟨_, _, _, again, -, yields⟩ := holds.sort last_lossless
    cases sorted.symm.trans again
    refine ⟨⟨parts, contents, ?_⟩, Merge.drain_of_yields yields⟩
    rw [← whole]
    exact (perm_of_parts parts_sorted).append_right _
  · intro feature error after behind failed
    exact add_error_of_history history bytes begins failed

end

/-- A disk on which a directory stands in the way of a chunk file. -/
def blockedDisk : Disk :=
  ⟨[(["run", "chunk-000000.tmp"], .directory), (["run"], .directory)], []⟩

section

attribute [local instance] Frame.codec

theorem history_of_create_blocked :
    ∃ sorter begun last left,
      create "/run" eagerConfig .empty = (.ok sorter, begun) ∧
      History Step (sorter, begun)
        [.change, .add ⟨5, [1]⟩ (.error (.device .alreadyExists)), .sort (.error .poisoned)]
        (last, left) ∧
      ∀ event ∈ [SorterEvent.sort (.error .poisoned)], event.IsPoisoned := by
  have created : create "/run" eagerConfig .empty = (.ok (fresh "/run" eagerConfig), runDisk) := by
    rfl
  let filled := (fresh "/run" eagerConfig).push ⟨5, [1]⟩
  have blocked : filled.writeBuffer blockedDisk =
      (.error (.device .alreadyExists), blockedDisk) := by
    rw [writeBuffer, show filled.buffer.toList = [⟨5, [1]⟩] from rfl, inKeyOrder_singleton]
    decide +kernel
  have change : Step (fresh "/run" eagerConfig, runDisk) .change
      (fresh "/run" eagerConfig, blockedDisk) := .change (by simp [Undisturbed, fresh])
  have add := Step.add (fresh "/run" eagerConfig) blockedDisk ⟨5, [1]⟩
  rw [add_of_full blockedDisk (by decide) rfl (by decide), spill_eq, blocked] at add
  have sort := Step.sort filled.spoiled blockedDisk
  rw [sort_of_poisoned rfl] at sort
  have history : History Step (fresh "/run" eagerConfig, runDisk) _ (filled.spoiled, blockedDisk) :=
    .cons change (.cons add (.cons sort (.nil _)))
  obtain ⟨refused, -⟩ := history_of_create (by decide) created history
  exact ⟨_, _, _, _, created, history, refused [.change] _ _ _ rfl⟩

end

end Sorter
end TileBindery
