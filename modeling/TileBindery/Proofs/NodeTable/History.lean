import TileBindery.Proofs.Disk.Writing
import TileBindery.Proofs.History
import TileBindery.Proofs.NodeTable.Lookup

/-!
# The life of a node table

A table is filled, sealed and asked by calls in any order, on a disk that others change between the
calls, as long as they leave the table's file alone.  The main statement says that it is a map that
grows in ascending order: it holds the entries that it has accepted and no others, and finds them
once it is sealed.
-/

namespace TileBindery

/-- What happens to a node table. -/
inductive NodeEvent where
  /-- An entry is added, with this answer. -/
  | put (id value : UInt64) (answer : Except NodeTableError Unit)
  /-- Filling is ended, with this answer. -/
  | finish (answer : Except NodeTableError Unit)
  /-- The table is asked for an identifier, with this answer. -/
  | get (id : UInt64) (answer : Except NodeTableError (Option UInt64))
  /-- Others change the disk. -/
  | change

namespace NodeEvent

/-- The entry that is accepted, if there is one. -/
def entries : NodeEvent → List (UInt64 × UInt64)
  | .put id value (.ok ()) => [(id, value)]
  | _ => []

/-- The entries that are accepted in a history, in order. -/
def stored (events : List NodeEvent) : List (UInt64 × UInt64) := events.flatMap entries

theorem stored_concat (events : List NodeEvent) (event : NodeEvent) :
    stored (events ++ [event]) = stored events ++ event.entries := by
  simp [stored]

theorem mem_stored {events : List NodeEvent} {id value : UInt64} :
    (id, value) ∈ stored events ↔ .put id value (.ok ()) ∈ events := by
  rw [stored, List.mem_flatMap]
  constructor
  · rintro ⟨event, member, own⟩
    cases event with
    | put other held answer =>
        cases answer with
        | error => simp [entries] at own
        | ok =>
            obtain ⟨rfl, rfl⟩ : id = other ∧ value = held := by simpa [entries] using own
            exact member
    | finish | get | change => simp [entries] at own
  · intro member
    exact ⟨_, member, List.mem_singleton_self _⟩

/-- Filling is ended. -/
def isFinish : NodeEvent → Bool
  | .finish _ => true
  | _ => false

end NodeEvent

namespace NodeTable

/-- Changes to a disk that leave the file of a table alone. -/
structure Undisturbed (table : NodeTable) (disk other : Disk) : Prop where
  /-- Files do not go. -/
  files : disk.files.length ≤ other.files.length
  /-- The table's path still leads to its place. -/
  reaches : disk.Reaches (Path.ofText table.path) → other.Reaches (Path.ofText table.path)
  /-- The same file stands there. -/
  stands : other.lookup (Path.ofText table.path).location =
    disk.lookup (Path.ofText table.path).location
  /-- It holds what it held. -/
  contents : ∀ number, disk.lookup (Path.ofText table.path).location = some (.file number) →
    other.contents number = disk.contents number

/-- One event in the life of a table and its disk. -/
inductive Step : NodeTable × Disk → NodeEvent → NodeTable × Disk → Prop where
  | put (table : NodeTable) (disk : Disk) (id value : UInt64) :
      Step (table, disk) (.put id value (table.put id value disk).1) (table.put id value disk).2
  | finish (table : NodeTable) (disk : Disk) :
      Step (table, disk) (.finish (table.finish disk).1) (table.finish disk).2
  | get (table : NodeTable) (disk : Disk) (id : UInt64) :
      Step (table, disk) (.get id (table.get? id disk)) (table, disk)
  | change {table : NodeTable} {disk other : Disk} (same : table.Undisturbed disk other) :
      Step (table, disk) .change (table, other)

/-- The file with a number and a table in a phase hold these entries. -/
def InPhase (entries : List (UInt64 × UInt64)) (number : Nat) (disk : Disk) : NodePhase → Prop
  | .filling buffer last => buffer.handle.number = number ∧
      buffer.Writes disk (octetsOf entries) ∧ last = entries.getLast?.map Prod.fst
  | .sealed file count => file = number ∧ disk.contents number = octetsOf entries ∧
      count = entries.length
  | .sealedEmpty => entries = []

/-- No more entries are accepted. -/
def isSealed (table : NodeTable) : Bool :=
  match table.phase with
  | .filling .. => false
  | _ => true

/-- A table holds these entries. -/
structure Holds (table : NodeTable) (disk : Disk) (entries : List (UInt64 × UInt64)) : Prop where
  ascending : entries.Pairwise fun a b => a.1 < b.1
  count : table.count = entries.length
  reaches : disk.Reaches (Path.ofText table.path)
  file : ∃ number, disk.lookup (Path.ofText table.path).location = some (.file number) ∧
    number < disk.files.length ∧ InPhase entries number disk table.phase

variable {table next : NodeTable} {disk other after : Disk} {entries : List (UInt64 × UInt64)}
  {id : UInt64}

theorem Holds.of_undisturbed (holds : table.Holds disk entries)
    (same : table.Undisturbed disk other) : table.Holds other entries := by
  obtain ⟨number, stands, real, phase⟩ := holds.file
  refine ⟨holds.ascending, holds.count, same.reaches holds.reaches, number,
    same.stands.trans stands, Nat.lt_of_lt_of_le real same.files, ?_⟩
  have kept := same.contents number stands
  cases form : table.phase with
  | filling buffer last =>
      rw [form] at phase
      obtain ⟨rfl, writes, last⟩ := phase
      exact ⟨rfl, writes.of_contents same.files kept, last⟩
  | sealed file count =>
      rw [form] at phase
      exact ⟨phase.1, kept.trans phase.2.1, phase.2.2⟩
  | sealedEmpty =>
      rw [form] at phase
      exact phase

theorem holds_create {path : String} (created : create path disk = (.ok table, after)) :
    table.Holds after [] ∧ table.isSealed = false := by
  rw [create] at created
  split at created
  next => simp at created
  next file made opened =>
    cases created
    obtain ⟨reaches, vacant, rfl, rfl⟩ := Disk.createFile_iff.1 opened
    have stored := Disk.stored_addFile [] reaches vacant
    refine ⟨⟨.nil, rfl, stored.reaches_after, disk.files.length, stored.stands, ?_, rfl, ?_, rfl⟩,
      rfl⟩
    · rw [stored.files]
      exact Nat.lt_succ_self _
    · refine ⟨[], ⟨?_, stored.contents_new, ?_⟩, rfl⟩
      · rw [WriteBuffer.ofHandle, stored.files]
        exact Nat.lt_succ_self _
      · rintro _ ⟨⟩
        rfl

/-- An identifier above the last of ascending ones is above all of them. -/
theorem filter_getLast?_iff (ascending : entries.Pairwise fun a b => a.1 < b.1) :
    (entries.getLast?.map Prod.fst).filter (id ≤ ·) = none ↔ ∀ entry ∈ entries, entry.1 < id := by
  rcases List.eq_nil_or_concat entries with rfl | ⟨front, last, rfl⟩
  · simp
  · rw [List.concat_eq_append] at ascending ⊢
    obtain ⟨-, -, below⟩ := List.pairwise_append.1 ascending
    simp only [List.getLast?_concat, Option.map_some, Option.filter_eq_none_iff, Option.some.injEq,
      forall_eq', decide_eq_true_eq, UInt64.not_le, List.mem_append, List.mem_singleton]
    constructor
    · rintro above entry (member | rfl)
      · exact UInt64.lt_trans (below entry member last List.mem_cons_self) above
      · exact above
    · intro above
      exact above last (.inr rfl)

theorem put_of_sealed (done : table.isSealed) (id value : UInt64) (disk : Disk) :
    table.put id value disk = (.error .sealed, table, disk) := by
  cases phase : table.phase with
  | filling => simp [isSealed, phase] at done
  | sealed | sealedEmpty => simp [put, phase]

theorem finish_of_sealed (done : table.isSealed) (disk : Disk) :
    table.finish disk = (.ok (), table, disk) := by
  cases phase : table.phase with
  | filling => simp [isSealed, phase] at done
  | sealed | sealedEmpty => simp [finish, phase]

theorem filling_of_not_sealed (filling : table.isSealed = false) :
    ∃ buffer last, table.phase = .filling buffer last := by
  cases phase : table.phase with
  | filling buffer last => exact ⟨buffer, last, rfl⟩
  | sealed | sealedEmpty => simp [isSealed, phase] at filling

namespace Holds

/-- An identifier that is not above all others is refused. -/
theorem put_refused (holds : table.Holds disk entries) (filling : table.isSealed = false)
    (low : ¬∀ entry ∈ entries, entry.1 < id) (value : UInt64) :
    ∃ previous, entries.getLast?.map Prod.fst = some previous ∧
      table.put id value disk = (.error (.notAscending previous id), table, disk) := by
  obtain ⟨buffer, last, phase⟩ := filling_of_not_sealed filling
  obtain ⟨number, -, -, within⟩ := holds.file
  rw [phase] at within
  obtain ⟨-, -, rfl⟩ := within
  rw [← filter_getLast?_iff holds.ascending] at low
  obtain ⟨previous, refused⟩ := Option.ne_none_iff_exists'.1 low
  refine ⟨previous, (Option.filter_eq_some_iff.1 refused).1, ?_⟩
  rw [put, phase]
  dsimp only
  rw [refused]

/-- An identifier above all others is accepted. -/
theorem put_accepted (holds : table.Holds disk entries) (filling : table.isSealed = false)
    (above : ∀ entry ∈ entries, entry.1 < id) (value : UInt64) :
    ∃ next after, table.put id value disk = (.ok (), next, after) ∧
      next.Holds after (entries ++ [(id, value)]) ∧ next.isSealed = false := by
  obtain ⟨buffer, last, phase⟩ := filling_of_not_sealed filling
  obtain ⟨number, stands, real, within⟩ := holds.file
  rw [phase] at within
  obtain ⟨rfl, writes, rfl⟩ := within
  have taken := writes.writeAll false table.path (show 0 < capacity by decide) [word id, word value]
  rw [← octetsOf_concat] at taken
  rw [put, phase]
  dsimp only
  rw [(filter_getLast?_iff holds.ascending).2 above, outlet]
  generalize buffer.writeAll (Disk.outlet false table.path) capacity [word id, word value] disk =
    outcome at taken
  obtain ⟨result, filled, after⟩ := outcome
  obtain ⟨rfl, same, kept, rewrites⟩ := taken
  refine ⟨_, _, rfl, ⟨?_, ?_, rewrites.reaches holds.reaches, buffer.handle.number,
    (rewrites.entries _).trans stands, rewrites.files ▸ real, same, kept, ?_⟩, rfl⟩
  · rw [List.pairwise_append]
    refine ⟨holds.ascending, List.pairwise_singleton .., fun entry member other single => ?_⟩
    obtain rfl := List.mem_singleton.1 single
    exact above entry member
  · rw [List.length_append, ← holds.count]
    rfl
  · rw [List.getLast?_concat]
    rfl

/-- Sealing a table that is being filled. -/
theorem finish_accepted (holds : table.Holds disk entries) (filling : table.isSealed = false) :
    ∃ next after, table.finish disk = (.ok (), next, after) ∧ next.Holds after entries ∧
      next.isSealed := by
  obtain ⟨buffer, last, phase⟩ := filling_of_not_sealed filling
  obtain ⟨number, stands, real, within⟩ := holds.file
  rw [phase] at within
  obtain ⟨rfl, writes, rfl⟩ := within
  obtain ⟨flushed, empty⟩ := writes.flush false table.path
  rw [finish, phase, outlet]
  dsimp only
  generalize buffer.flush (Disk.outlet false table.path) disk = outcome at flushed empty
  obtain ⟨result, emptied, after⟩ := outcome
  obtain ⟨rfl, same, kept, rewrites⟩ := flushed
  have reaches := rewrites.reaches holds.reaches
  have stands_after := (rewrites.entries (Path.ofText table.path).location).trans stands
  have real_after := rewrites.files ▸ real
  obtain ⟨held, ends, whole⟩ := kept.whole
  rw [empty, List.append_nil] at whole
  have contents : after.contents buffer.handle.number = octetsOf entries := by
    rw [← same, ends.contents, whole]
  dsimp only
  split
  next none =>
    refine ⟨_, _, rfl, ⟨holds.ascending, holds.count, reaches, _, stands_after, real_after, ?_⟩,
      rfl⟩
    exact List.length_eq_zero_iff.1 (holds.count ▸ none)
  next =>
    rw [reaches.mapFile stands_after]
    refine ⟨_, _, rfl, ⟨holds.ascending, holds.count, reaches, _, stands_after, real_after, rfl,
      contents, ?_⟩, rfl⟩
    rw [contents, length_octetsOf, Nat.mul_div_cancel _ (by decide)]

/-- A sealed table finds its entries. -/
theorem get_sealed (holds : table.Holds disk entries) (done : table.isSealed) (id : UInt64) :
    ∃ answer, table.get? id disk = .ok answer ∧
      ∀ value, answer = some value ↔ (id, value) ∈ entries := by
  obtain ⟨number, -, -, within⟩ := holds.file
  rw [get?]
  cases phase : table.phase with
  | filling => simp [isSealed, phase] at done
  | sealedEmpty =>
      rw [phase] at within
      obtain rfl : entries = [] := within
      exact ⟨none, rfl, by simp⟩
  | sealed file count =>
      rw [phase] at within
      obtain ⟨rfl, contents, rfl⟩ := within
      refine ⟨_, rfl, fun value => ?_⟩
      rw [contents]
      exact search_octetsOf holds.ascending

end Holds

/-- What a table does that holds these entries. -/
structure AsMap (table : NodeTable) (disk : Disk) (entries : List (UInt64 × UInt64))
    (finished : Prop) : Prop where
  /-- No identifier comes twice, and none behind a larger one. -/
  ascending : entries.Pairwise fun a b => a.1 < b.1
  /-- All are counted. -/
  count : table.count = entries.length
  /-- An entry is accepted if the table is being filled and the identifier is above all others. -/
  accepts : ∀ id value, (∃ next after, table.put id value disk = (.ok (), next, after)) ↔
    ¬finished ∧ ∀ entry ∈ entries, entry.1 < id
  /-- An entry behind one that is not below it is refused without a trace. -/
  refuses_low : ¬finished → ∀ id value, ¬(∀ entry ∈ entries, entry.1 < id) →
    ∃ previous, entries.getLast?.map Prod.fst = some previous ∧
      table.put id value disk = (.error (.notAscending previous id), table, disk)
  /-- A sealed table refuses all entries without a trace. -/
  refuses_late : finished → ∀ id value, table.put id value disk = (.error .sealed, table, disk)
  /-- A table can be sealed at any time. -/
  seals : ∃ next after, table.finish disk = (.ok (), next, after)
  /-- Nothing happens when it is sealed again. -/
  seals_again : finished → table.finish disk = (.ok (), table, disk)
  /-- A table that is being filled gives no answers. -/
  silent : ¬finished → ∀ id, table.get? id disk = .error .notSealed
  /-- A sealed table gives the values of its entries, and no others. -/
  finds : finished → ∀ id, ∃ answer, table.get? id disk = .ok answer ∧
    ∀ value, answer = some value ↔ (id, value) ∈ entries

theorem get_of_filling (filling : table.isSealed = false) (id : UInt64) (disk : Disk) :
    table.get? id disk = .error .notSealed := by
  obtain ⟨buffer, last, phase⟩ := filling_of_not_sealed filling
  rw [get?, phase]

theorem Holds.asMap (holds : table.Holds disk entries) :
    table.AsMap disk entries table.isSealed where
  ascending := holds.ascending
  count := holds.count
  accepts id value := by
    constructor
    · rintro ⟨next, after, done⟩
      by_cases finished : table.isSealed
      · rw [put_of_sealed finished] at done
        cases done
      · refine ⟨finished, Classical.not_not.1 fun low => ?_⟩
        obtain ⟨previous, -, refused⟩ :=
          holds.put_refused (Bool.eq_false_iff.2 finished) low value
        rw [refused] at done
        cases done
    · rintro ⟨filling, above⟩
      obtain ⟨next, after, done, -⟩ :=
        holds.put_accepted (Bool.eq_false_iff.2 filling) above value
      exact ⟨next, after, done⟩
  refuses_low filling _ value low := holds.put_refused (Bool.eq_false_iff.2 filling) low value
  refuses_late finished id value := put_of_sealed finished id value disk
  seals := by
    by_cases finished : table.isSealed
    · exact ⟨table, disk, finish_of_sealed finished disk⟩
    · obtain ⟨next, after, done, -⟩ := holds.finish_accepted (Bool.eq_false_iff.2 finished)
      exact ⟨next, after, done⟩
  seals_again finished := finish_of_sealed finished disk
  silent filling id := get_of_filling (Bool.eq_false_iff.2 filling) id disk
  finds finished id := holds.get_sealed finished id

/-- A table and its disk after events. -/
structure Follows (events : List NodeEvent) (state : NodeTable × Disk) : Prop where
  holds : state.1.Holds state.2 (NodeEvent.stored events)
  phase : state.1.isSealed = events.any NodeEvent.isFinish

theorem follows_concat {events : List NodeEvent} {event : NodeEvent}
    (holds : next.Holds disk (NodeEvent.stored events ++ event.entries))
    (phase : next.isSealed = (events.any NodeEvent.isFinish || event.isFinish)) :
    Follows (events ++ [event]) (next, disk) where
  holds := by rwa [NodeEvent.stored_concat]
  phase := by rw [phase, List.any_append, List.any_cons, List.any_nil, Bool.or_false]

/-- An event that adds and ends nothing. -/
theorem Follows.of_quiet {events : List NodeEvent} {event : NodeEvent}
    (follows : Follows events (table, disk)) (none : event.entries = [])
    (open_event : event.isFinish = false) (holds : table.Holds other (NodeEvent.stored events)) :
    Follows (events ++ [event]) (table, other) :=
  follows_concat (by rwa [none, List.append_nil])
    (by rw [open_event, Bool.or_false]; exact follows.phase)

theorem Follows.put {events : List NodeEvent} (follows : Follows events (table, disk))
    (id value : UInt64) :
    Follows (events ++ [.put id value (table.put id value disk).1])
      (table.put id value disk).2 := by
  by_cases finished : table.isSealed
  · rw [put_of_sealed finished]
    exact follows.of_quiet rfl rfl follows.holds
  · have filling := Bool.eq_false_iff.2 finished
    by_cases above : ∀ entry ∈ NodeEvent.stored events, entry.1 < id
    · obtain ⟨next, after, done, holds, still⟩ :=
        follows.holds.put_accepted filling above value
      rw [done]
      refine follows_concat holds ?_
      rw [still, ← follows.phase, filling]
      rfl
    · obtain ⟨previous, -, refused⟩ := follows.holds.put_refused filling above value
      rw [refused]
      exact follows.of_quiet rfl rfl follows.holds

theorem Follows.finish {events : List NodeEvent} (follows : Follows events (table, disk)) :
    Follows (events ++ [.finish (table.finish disk).1]) (table.finish disk).2 := by
  have ended {next : NodeTable} {after : Disk} {answer : Except NodeTableError Unit}
      (holds : next.Holds after (NodeEvent.stored events)) (done : next.isSealed) :
      Follows (events ++ [.finish answer]) (next, after) := by
    refine follows_concat ?_ (done.trans (Bool.or_true _).symm)
    exact (List.append_nil _).symm ▸ holds
  by_cases finished : table.isSealed
  · rw [finish_of_sealed finished]
    exact ended follows.holds finished
  · obtain ⟨next, after, done, holds, closed⟩ :=
      follows.holds.finish_accepted (Bool.eq_false_iff.2 finished)
    rw [done]
    exact ended holds closed

theorem Follows.step {events : List NodeEvent} {event : NodeEvent}
    {state after : NodeTable × Disk} (follows : Follows events state)
    (step : Step state event after) : Follows (events ++ [event]) after := by
  cases step with
  | put table disk id value => exact follows.put id value
  | finish table disk => exact follows.finish
  | get => exact follows.of_quiet rfl rfl follows.holds
  | change same => exact follows.of_quiet rfl rfl (follows.holds.of_undisturbed same)

/-- Whatever happens to a new table in whatever order, it is a map of the entries that it has
accepted: it accepts entries in ascending order until it is sealed, and then finds them, and no
others. -/
theorem map_of_history {path : String} {start begun left : Disk} {last : NodeTable}
    {events : List NodeEvent} (created : create path start = (.ok table, begun))
    (history : History Step (table, begun) events (last, left)) :
    last.AsMap left (NodeEvent.stored events) (∃ event ∈ events, event.isFinish) ∧
      ∀ id value, (id, value) ∈ NodeEvent.stored events ↔ .put id value (.ok ()) ∈ events := by
  obtain ⟨holds, filling⟩ := holds_create created
  have follows : Follows ([] ++ events) (last, left) :=
    history.accumulates Follows (fun _ _ _ _ step follows => follows.step step) ⟨holds, filling⟩
  rw [List.nil_append] at follows
  refine ⟨?_, fun _ _ => NodeEvent.mem_stored⟩
  rw [← List.any_eq_true, ← follows.phase]
  exact follows.holds.asMap

/-- A table with one entry, before and after it is sealed. -/
def oneNode (phase : NodePhase) : NodeTable := ⟨"nodes", 1, phase⟩

/-- A disk with a file of these entries. -/
def nodeDisk (entries : List (UInt64 × UInt64)) : Disk :=
  ⟨[(["nodes"], .file 0)], [octetsOf entries]⟩

/-- An identifier is given twice; the first value is kept and found, and nothing else. -/
theorem map_of_history_one :
    create "nodes" .empty =
        (.ok ⟨"nodes", 0, .filling ⟨⟨0, some 0⟩, []⟩ none⟩, nodeDisk []) ∧
      History Step (⟨"nodes", 0, .filling ⟨⟨0, some 0⟩, []⟩ none⟩, nodeDisk [])
        [.put 5 1 (.ok ()), .put 5 2 (.error (.notAscending 5 5)), .finish (.ok ())]
        (oneNode (.sealed 0 1), nodeDisk [(5, 1)]) ∧
      (oneNode (.sealed 0 1)).get? 5 (nodeDisk [(5, 1)]) = .ok (some 1) ∧
      (oneNode (.sealed 0 1)).get? 0 (nodeDisk [(5, 1)]) = .ok none := by
  let filling : NodeTable := oneNode (.filling ⟨⟨0, some 0⟩, octetsOf [(5, 1)]⟩ (some 5))
  have created : create "nodes" .empty =
      (.ok ⟨"nodes", 0, .filling ⟨⟨0, some 0⟩, []⟩ none⟩, nodeDisk []) := rfl
  have first : Step (⟨"nodes", 0, .filling ⟨⟨0, some 0⟩, []⟩ none⟩, nodeDisk [])
      (.put 5 1 (.ok ())) (filling, nodeDisk []) := .put _ (nodeDisk []) 5 1
  have second : Step (filling, nodeDisk []) (.put 5 2 (.error (.notAscending 5 5)))
      (filling, nodeDisk []) := .put filling (nodeDisk []) 5 2
  have third : Step (filling, nodeDisk []) (.finish (.ok ()))
      (oneNode (.sealed 0 1), nodeDisk [(5, 1)]) := by
    have sealing := Step.finish filling (nodeDisk [])
    have finished : (filling.finish (nodeDisk [])).1.isOk ∧
        (filling.finish (nodeDisk [])).2 = (oneNode (.sealed 0 1), nodeDisk [(5, 1)]) := by
      decide +kernel
    generalize filling.finish (nodeDisk []) = outcome at sealing finished
    obtain ⟨_ | _, state⟩ := outcome
    · cases finished.1
    · rwa [finished.2] at sealing
  have history := History.cons first (.cons second (.cons third (.nil _)))
  have finds := (map_of_history created history).1.finds ⟨.finish (.ok ()), by simp, rfl⟩
  refine ⟨created, history, ?_, ?_⟩
  · obtain ⟨answer, found, values⟩ := finds 5
    rw [found, (values 1).2 (by decide)]
  · obtain ⟨answer, found, values⟩ := finds 0
    refine found.trans (congrArg _ (Option.eq_none_iff_forall_ne_some.2 fun value own => ?_))
    simpa [NodeEvent.stored, NodeEvent.entries] using (values value).1 own

end NodeTable
end TileBindery
