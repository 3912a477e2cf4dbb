import Mathlib.Algebra.Ring.Nat
import Mathlib.Logic.ExistsUnique
import TileBindery.Proofs.Archive.Shelves
import TileBindery.Proofs.Archive.Writers

/-!
# How an archive is spread over its shards

Every tile goes to one shard, by its identifier and the number of shards.  The main statement says
that the shards of an archive that is written without failure part the tiles among them: each holds,
behind what was there before, its header, its tiles in the order in which they were written, and its
footer.
-/

namespace TileBindery
namespace Routing

/-- The tiles that go to a shard, in order. -/
def routed (shards index : Nat) (tiles : List (Tile × Option Bytes)) :
    List (Tile × Option Bytes) :=
  tiles.filter fun entry => shardOf entry.1.id shards = index

variable {shards : Nat} {tiles : List (Tile × Option Bytes)}

theorem routed_append (index : Nat) (others : List (Tile × Option Bytes)) :
    routed shards index (tiles ++ others) =
      routed shards index tiles ++ routed shards index others := List.filter_append ..

theorem routed_singleton (index : Nat) (entry : Tile × Option Bytes) :
    routed shards index [entry] =
      if shardOf entry.1.id shards = index then [entry] else [] := by
  by_cases own : shardOf entry.1.id shards = index
  · simp [routed, own]
  · simp [routed, own]

/-- The tiles of the first shards are those routed to them. -/
theorem perm_routed_below (tiles : List (Tile × Option Bytes)) (count : Nat) :
    ((List.range count).flatMap fun index => routed shards index tiles).Perm
      (tiles.filter fun entry => shardOf entry.1.id shards < count) := by
  induction count with
  | zero => simp
  | succ count ih =>
      rw [List.range_succ, List.flatMap_append, List.flatMap_singleton]
      -- the tiles of one more shard are those of the shards before it and its own
      have parts := List.filter_append_perm (fun entry => decide (shardOf entry.1.id shards < count))
        (tiles.filter fun entry => shardOf entry.1.id shards < count + 1)
      rw [List.filter_filter, List.filter_filter] at parts
      refine List.Perm.trans (List.Perm.trans (ih.append_right _) (List.Perm.of_eq ?_)) parts
      congr 1
      · refine List.filter_congr fun entry _ => ?_
        rw [← Bool.decide_and, decide_eq_decide]
        omega
      · refine List.filter_congr fun entry _ => ?_
        rw [← decide_not, ← Bool.decide_and, decide_eq_decide]
        omega

/-- Each tile is routed to one of the shards, and to no other. -/
theorem perm_routed (some_shard : 0 < shards) (tiles : List (Tile × Option Bytes)) :
    ((List.range shards).flatMap fun index => routed shards index tiles).Perm tiles := by
  have all : (tiles.filter fun entry => shardOf entry.1.id shards < shards) = tiles :=
    List.filter_eq_self.2 fun entry _ => decide_eq_true (shardOf_lt some_shard)
  have parts := @perm_routed_below shards tiles shards
  rwa [all] at parts

theorem shardPath_injective (base : String) : Function.Injective (shardPath base) := by
  intro a b same
  exact location_shardPath_injective (congrArg (fun path => (Path.ofText path).location) same)

end Routing

namespace ArchiveWriter

open Routing

variable {σ η : Type} {shelf : Shelf σ η}

/-- What holds of a shard does not depend on other destinations. -/
def Stable (shelf : Shelf σ η) (holds : Nat → Shard σ η → σ → Prop) : Prop :=
  ∀ ⦃index other shard world after⦄, shelf.Keeps other world after → index ≠ other →
    holds index shard world → holds index shard after

/-- An operation that leads every shard from one condition to another leads all shards there. -/
theorem each_forShards {α : Type} {operation : Shard σ η → σ → Shard.Outcome σ η α}
    {before behind : Nat → Shard σ η → σ → Prop} (stable_before : Stable shelf before)
    (stable_behind : Stable shelf behind)
    (step : ∀ ⦃index shard world value next after⦄, shelf.Sound world → before index shard world →
      operation shard world = (.ok value, next, after) →
        behind index next after ∧ shelf.Keeps index world after)
    {first : Nat} {shards others : List (Shard σ η)} {world after : σ} {values : List α}
    (sound : shelf.Sound world) (each : Each before first shards world)
    (done : forShards operation shards world = (.ok values, others, after)) :
    shelf.Sound after ∧ others.length = shards.length ∧ Each behind first others after ∧
      ∀ index < first, ∀ shard, behind index shard world → behind index shard after := by
  induction shards generalizing first others world values with
  | nil =>
      cases done
      exact ⟨sound, rfl, fun index shard found => by simp at found, fun _ _ _ => id⟩
  | cons shard rest ih =>
      obtain ⟨own, later⟩ := each_cons.1 each
      rw [forShards] at done
      split at done
      next => simp at done
      next value next middle taken =>
        obtain ⟨own_behind, keeps⟩ := step sound own taken
        have later_before : Each before (first + 1) rest middle := fun index other found =>
          stable_before keeps (by omega) (later index other found)
        cases others_done : forShards operation rest middle with
        | mk result last =>
            obtain ⟨last_shards, last_world⟩ := last
            simp only [others_done, Prod.mk.injEq] at done
            obtain ⟨all_ok, rfl, rfl⟩ := done
            cases result with
            | error error => simp [Except.map] at all_ok
            | ok rest_values =>
                obtain ⟨last_sound, length, last_each, stays⟩ :=
                  ih keeps.sound later_before others_done
                refine ⟨last_sound, by rw [List.length_cons, List.length_cons, length],
                  each_cons.2 ⟨stays first (Nat.lt_succ_self _) next own_behind, last_each⟩, ?_⟩
                intro index earlier other holds
                exact stays index (Nat.lt_succ_of_lt earlier) other
                  (stable_behind keeps (Nat.ne_of_lt earlier) holds)

/-! ### Writers -/

variable {config : Nat → ArchiveConfig} {old : Nat → Bytes} {metadata : Metadata} {count : Nat}
  {tiles : List (Tile × Option Bytes)} {world after : σ} {writer next : ArchiveWriter σ η}

/-- What a shard takes of tiles, behind what its destination holds and its header. -/
def text (config : Nat → ArchiveConfig) (old : Nat → Bytes) (metadata : Metadata) (count : Nat)
    (tiles : List (Tile × Option Bytes)) (index : Nat) : Bytes :=
  old index ++ ((config index).headerPieces metadata).flatten ++
    (config index).tileOctets (routed count index tiles)

theorem text_nil (index : Nat) : text config old metadata count [] index =
    old index ++ ((config index).headerPieces metadata).flatten := List.append_nil _

theorem text_append (entry : Tile × Option Bytes) (index : Nat) :
    text config old metadata count (tiles ++ [entry]) index =
      text config old metadata count tiles index ++
        if shardOf entry.1.id count = index then ((config index).tilePieces entry.1 entry.2).flatten
        else [] := by
  rw [text, text, routed_append, routed_singleton, ArchiveConfig.tileOctets,
    ArchiveConfig.tileOctets, List.flatMap_append, ← List.append_assoc]
  split
  next => rw [List.flatMap_singleton]
  next => rw [List.flatMap_nil]

/-- A writer of `count` shards has been begun and has taken tiles. -/
structure Fills (shelf : Shelf σ η) (config : Nat → ArchiveConfig) (old : Nat → Bytes)
    (metadata : Metadata) (count : Nat) (tiles : List (Tile × Option Bytes)) (world : σ)
    (writer : ArchiveWriter σ η) : Prop where
  /-- No two destinations share anything. -/
  sound : shelf.Sound world
  /-- There are as many shards. -/
  size : writer.shards.length = count
  /-- All tiles are counted. -/
  counted : writer.tilesWritten = tiles.length
  /-- Each shard has taken the tiles that are routed to it. -/
  each : Each (fun index shard world => shard.Carries shelf index (config index)
    (text config old metadata count tiles index) (routed count index tiles).length world) 0
      writer.shards world

/-- Beginning a writer of unused shards puts the headers behind what the destinations hold. -/
theorem fills_begin {shards : List (Shard σ η)} (sound : shelf.Sound world)
    (fresh : ∀ (index : Nat) (shard : Shard σ η), shards[index]? = some shard →
      ∃ number, shard = .ofOutlet number (config index) (shelf.outlet index))
    (done : (⟨shards, 0⟩ : ArchiveWriter σ η).begin metadata world = (.ok (), next, after)) :
    next.Fills shelf config (shelf.held · world) metadata shards.length [] after := by
  cases each_done : forShards (·.begin metadata) shards world with
  | mk result rest =>
      obtain ⟨others, behind⟩ := rest
      simp only [begin, each_done, Prod.mk.injEq] at done
      obtain ⟨all_ok, rfl, rfl⟩ := done
      cases result with
      | error error => simp [Except.map] at all_ok
      | ok values =>
          have idle : Each (fun index shard later => shard.Idle shelf index (config index)
              (shelf.held index world) later) 0 shards world := by
            intro index shard found
            refine ⟨?_, rfl⟩
            rw [Nat.zero_add]
            exact fresh index shard found
          have carrying : Stable shelf fun index shard later =>
              shard.Carries shelf index (config index)
                (text config (shelf.held · world) metadata shards.length [] index) 0 later :=
            fun _ _ _ _ _ keeps apart carries => carries.of_keeps keeps apart
          obtain ⟨last_sound, size, each, -⟩ := each_forShards
            (fun _ _ _ _ _ keeps apart idle => idle.of_keeps keeps apart) carrying
            (fun _ _ _ _ _ _ sound idle begun => by
              rw [text_nil]
              exact idle.begin sound begun)
            sound idle each_done
          exact ⟨last_sound, size, rfl, each⟩

/-- A tile goes behind what its shard has taken. -/
theorem Fills.write {tile : Tile} {data : Option Bytes}
    (fills : writer.Fills shelf config old metadata count tiles world)
    (done : writer.write tile data world = (.ok (), next, after)) :
    next.Fills shelf config old metadata count (tiles ++ [(tile, data)]) after := by
  obtain ⟨target, route⟩ : ∃ target, shardOf tile.id count = target := ⟨_, rfl⟩
  simp only [ArchiveWriter.write, fills.size, route] at done
  split at done
  next => simp at done
  next shard found =>
    split at done
    next => simp at done
    next filled behind put =>
      cases done
      have carries := fills.each target shard found
      rw [Nat.zero_add] at carries
      obtain ⟨own, keeps⟩ := carries.write fills.sound put
      refine ⟨keeps.sound, ?_, ?_, ?_⟩
      · rw [List.length_set, fills.size]
      · rw [List.length_append, List.length_singleton, fills.counted]
      · intro index other member
        rw [List.getElem?_set] at member
        rw [Nat.zero_add, text_append, routed_append, routed_singleton, route,
          List.length_append]
        by_cases same : target = index
        · subst same
          have below := (List.getElem?_eq_some_iff.1 found).1
          rw [if_pos rfl, if_pos below] at member
          cases member
          simpa only [if_true, List.length_singleton] using own
        · rw [if_neg same] at member
          have still := fills.each index other member
          rw [Nat.zero_add] at still
          rw [if_neg same, if_neg same, List.append_nil]
          exact still.of_keeps keeps (Ne.symm same)

theorem Fills.writeAll {others : List (Tile × Option Bytes)}
    (fills : writer.Fills shelf config old metadata count tiles world)
    (done : writer.writeAll others world = (.ok (), next, after)) :
    next.Fills shelf config old metadata count (tiles ++ others) after := by
  induction others generalizing writer tiles world with
  | nil =>
      cases done
      rwa [List.append_nil]
  | cons entry rest ih =>
      rw [ArchiveWriter.writeAll] at done
      split at done
      next => simp at done
      next wrote =>
        have last := ih (fills.write wrote) done
        rwa [List.append_assoc] at last

/-- Finishing a writer puts the footers behind what the shards have taken. -/
theorem Fills.finish {last : Metadata} {handles : List η}
    (fills : writer.Fills shelf config old metadata count tiles world)
    (done : writer.finish last world = (.ok handles, next, after)) :
    next.tilesWritten = tiles.length ∧ next.shards.length = count ∧
      Each (fun index shard world => shard.Complete shelf index
        (text config old metadata count tiles index ++ ((config index).footerPieces last).flatten)
        (routed count index tiles).length world) 0 next.shards after := by
  cases each_done : forShards (·.finish last) writer.shards world with
  | mk result rest =>
      obtain ⟨others, behind⟩ := rest
      simp only [ArchiveWriter.finish, each_done, Prod.mk.injEq] at done
      obtain ⟨rfl, rfl, rfl⟩ := done
      have completed : Stable shelf fun index shard later => shard.Complete shelf index
          (text config old metadata count tiles index ++ ((config index).footerPieces last).flatten)
          (routed count index tiles).length later :=
        fun _ _ _ _ _ keeps apart complete => complete.of_keeps keeps apart
      obtain ⟨-, size, each, -⟩ := each_forShards
        (fun _ _ _ _ _ keeps apart carries => carries.of_keeps keeps apart) completed
        (fun _ _ _ _ _ _ sound carries finished => carries.finish sound finished)
        fills.sound fills.each each_done
      exact ⟨fills.counted, size.trans fills.size, each⟩

/-- The shards of an archive that is begun, written and finished without failure part the tiles among
them.  Each tile goes to one shard, which its identifier and the number of shards tell.  Each shard
holds, behind what was there before, its header, its tiles in the order in which they were written,
and its footer.  Shards have different paths, and what is counted adds up. -/
theorem shards_part_tiles {shards : List (Shard σ η)} {begun filled closed : ArchiveWriter σ η}
    {opened written left : σ} {first last : Metadata} {handles : List η}
    (sound : shelf.Sound world)
    (fresh : ∀ (index : Nat) (shard : Shard σ η), shards[index]? = some shard →
      ∃ number, shard = .ofOutlet number (config index) (shelf.outlet index))
    (made : ofShards shards = .ok writer)
    (began : writer.begin first world = (.ok (), begun, opened))
    (wrote : begun.writeAll tiles opened = (.ok (), filled, written))
    (finished : filled.finish last written = (.ok handles, closed, left)) :
    (∀ entry ∈ tiles, ∃! index, index < shards.length ∧
      entry ∈ routed shards.length index tiles) ∧
    ((List.range shards.length).flatMap fun index => routed shards.length index tiles).Perm tiles ∧
    (∀ index < shards.length, (routed shards.length index tiles).Sublist tiles ∧
      shelf.held index left = shelf.held index world ++
        ((config index).headerPieces first).flatten ++
        (config index).tileOctets (routed shards.length index tiles) ++
        ((config index).footerPieces last).flatten ∧
      ∃ owner, shelf.Owns index owner left) ∧
    closed.tilesWritten = tiles.length ∧
    (closed.shards.map Shard.tilesWritten).sum = tiles.length ∧
    ∀ base, Function.Injective (shardPath base) := by
  rw [ofShards] at made
  split at made
  next => simp at made
  next some_shards =>
    cases made
    have some_shard : 0 < shards.length := by
      rw [List.length_pos_iff]
      simpa using some_shards
    have fills := (fills_begin sound fresh began).writeAll wrote
    rw [List.nil_append] at fills
    obtain ⟨counted, size, each⟩ := fills.finish finished
    have parts := perm_routed some_shard tiles
    refine ⟨?_, parts, ?_, counted, ?_, shardPath_injective⟩
    · intro entry member
      refine ⟨shardOf entry.1.id shards.length, ⟨shardOf_lt some_shard, ?_⟩, ?_⟩
      · exact List.mem_filter.2 ⟨member, decide_eq_true rfl⟩
      · rintro index ⟨-, own⟩
        exact (of_decide_eq_true (List.mem_filter.1 own).2).symm
    · intro index below
      have complete := each index _ (List.getElem?_eq_getElem (size ▸ below))
      rw [Nat.zero_add] at complete
      exact ⟨List.filter_sublist, complete.held, complete.owns⟩
    · have counts : closed.shards.map Shard.tilesWritten =
          (List.range shards.length).map fun index => (routed shards.length index tiles).length := by
        refine List.ext_getElem (by simp [size]) fun index below _ => ?_
        rw [List.length_map] at below
        have complete := each index _ (List.getElem?_eq_getElem below)
        rw [Nat.zero_add] at complete
        rw [List.getElem_map, List.getElem_map, List.getElem_range, complete.count]
      rw [counts, ← parts.length_eq, List.length_flatMap]

theorem exists_ok {α β : Type} {outcome : Except ArchiveError α × β} (ok : outcome.1.isOk) :
    ∃ value, outcome = (.ok value, outcome.2) := by
  obtain ⟨result, behind⟩ := outcome
  cases result with
  | error error => cases ok
  | ok value => exact ⟨value, rfl⟩

/-- Two shards that are written on at their ends. -/
def twoShards : ArchiveConfig := { ArchiveConfig.ofFormat .proto with shards := 2, append := true }

/-- A disk on which the first of them stands. -/
def halfDisk : Disk := ⟨[(["a"], .file 0)], [[1]]⟩

/-- A tile goes to the second shard.  The first gets a header and a footer behind what it held. -/
theorem shards_part_tiles_appended :
    ∃ writer begun filled closed opened written left handles,
      ofShards (unused twoShards "a" 0 2) = .ok writer ∧
      writer.begin .empty halfDisk = (.ok (), begun, opened) ∧
      begun.writeAll [(⟨0, 0, 0⟩, some [7])] opened = (.ok (), filled, written) ∧
      filled.finish .empty written = (.ok handles, closed, left) ∧
      left.holding ["a"] = [1] ++ (twoShards.headerPieces .empty).flatten ++
        (twoShards.footerPieces .empty).flatten ∧
      left.holding ["a1"] = (twoShards.headerPieces .empty).flatten ++
        (twoShards.tilePieces ⟨0, 0, 0⟩ (some [7])).flatten ++
        (twoShards.footerPieces .empty).flatten := by
  let writer : ArchiveWriter Disk OpenFile := ⟨unused twoShards "a" 0 2, 0⟩
  let begun := (writer.begin .empty halfDisk).2
  let filled := (begun.1.writeAll [(⟨0, 0, 0⟩, some [7])] begun.2).2
  let closed := (filled.1.finish .empty filled.2).2
  obtain ⟨⟨⟩, began⟩ := exists_ok (show (writer.begin .empty halfDisk).1.isOk by decide +kernel)
  obtain ⟨⟨⟩, wrote⟩ := exists_ok
    (show (begun.1.writeAll [(⟨0, 0, 0⟩, some [7])] begun.2).1.isOk by decide +kernel)
  obtain ⟨handles, finished⟩ := exists_ok
    (show (filled.1.finish .empty filled.2).1.isOk by decide +kernel)
  change _ = (_, begun) at began
  change _ = (_, filled) at wrote
  change _ = (_, closed) at finished
  clear_value begun filled closed
  have fresh (index : Nat) (shard : Shard Disk OpenFile)
      (found : (unused twoShards "a" 0 2)[index]? = some shard) :
      ∃ number, shard = .ofOutlet number twoShards (Disk.outlet true (shardPath "a" index)) := by
    obtain ⟨below, rfl⟩ := List.getElem?_eq_some_iff.1 found
    exact ⟨index, by simp [unused, Shard.unused, twoShards]⟩
  have sound : (Disk.shelf true (shardPath "a") location_shardPath_injective).Sound halfDisk :=
    Disk.separate_of_entries (by decide) (by decide)
  have parts := (shards_part_tiles sound fresh rfl began wrote finished).2.2.1
  have size : (unused twoShards "a" 0 2).length = 2 := rfl
  have first_place : (Path.ofText (shardPath "a" 0)).location = ["a"] := by decide
  have second_place : (Path.ofText (shardPath "a" 1)).location = ["a1"] := by decide
  have none_first : routed 2 0 [(⟨0, 0, 0⟩, some [7])] = [] := by decide +kernel
  have one_second : routed 2 1 [(⟨0, 0, 0⟩, some [7])] = [(⟨0, 0, 0⟩, some [7])] := by
    decide +kernel
  refine ⟨_, _, _, _, _, _, _, _, rfl, began, wrote, finished, ?_, ?_⟩
  · have own := (parts 0 (by decide)).2.1
    rw [size, Disk.held_shelf, Disk.held_shelf, first_place, none_first] at own
    exact own.trans (congrArg (· ++ _) (List.append_nil _))
  · have own := (parts 1 (by decide)).2.1
    rw [size, Disk.held_shelf, Disk.held_shelf, second_place, one_second,
      ArchiveConfig.tileOctets, List.flatMap_singleton] at own
    exact own

/-! ### Files -/

theorem ofPath_ok {path : String} {config : ArchiveConfig} {disk ready : Disk}
    {writer : ArchiveWriter Disk OpenFile}
    (made : ofPath path config disk = (.ok writer, ready)) :
    writer = ⟨unused config path 0 config.shards, 0⟩ ∧ disk.Grows ready := by
  have grows := grows_ofPath config path disk
  rw [made] at grows
  cases valid : config.check with
  | error error => simp [ofPath, valid] at made
  | ok =>
      have some_shard : 0 < config.shards := by
        refine Nat.pos_of_ne_zero fun none => ?_
        rw [ArchiveConfig.check, if_pos none] at valid
        cases valid
      rcases ofPath_spec valid some_shard path disk with ⟨reason, refused⟩ | ⟨behind, same, -⟩
      · rw [made] at refused
        cases refused
      · cases made.symm.trans same
        exact ⟨rfl, grows⟩

/-- The files of an archive that is written to a disk without failure: what each held before, its
header, its tiles and its footer. -/
theorem read_of_finish {path : String} {config : ArchiveConfig} {first last : Metadata}
    {disk ready opened written left : Disk} {handles : List OpenFile}
    {writer begun filled closed : ArchiveWriter Disk OpenFile} (separate : disk.Separate)
    (made : ofPath path config disk = (.ok writer, ready))
    (began : writer.begin first ready = (.ok (), begun, opened))
    (wrote : begun.writeAll tiles opened = (.ok (), filled, written))
    (finished : filled.finish last written = (.ok handles, closed, left)) :
    ∀ index < config.shards,
      left.read (Path.ofText (shardPath path index)) =
        .ok (disk.holding (Path.ofText (shardPath path index)).location ++
          (config.headerPieces first).flatten ++
          config.tileOctets (routed config.shards index tiles) ++
          (config.footerPieces last).flatten) := by
  obtain ⟨rfl, grows⟩ := ofPath_ok made
  let files := Disk.shelf config.append (shardPath path) location_shardPath_injective
  have sound : files.Sound ready := separate.of_grows grows
  have size : (unused config path 0 config.shards).length = config.shards := by
    rw [unused, List.length_map, List.length_range']
  have fresh (index : Nat) (shard : Shard Disk OpenFile)
      (found : (unused config path 0 config.shards)[index]? = some shard) :
      ∃ number, shard = .ofOutlet number config (files.outlet index) := by
    obtain ⟨below, rfl⟩ := List.getElem?_eq_some_iff.1 found
    exact ⟨index, by simp [unused, Shard.unused, files, Disk.shelf]⟩
  obtain ⟨-, closed_size, each⟩ := ((fills_begin sound fresh began).writeAll wrote).finish finished
  rw [size] at closed_size each
  intro index below
  have complete := each index _ (List.getElem?_eq_getElem (closed_size ▸ below))
  rw [Nat.zero_add, List.nil_append] at complete
  obtain ⟨owner, owns⟩ := complete.owns
  refine Disk.read_iff.2 ⟨owns.reaches, owner.number, owns.stands, ?_⟩
  have held := complete.held
  rw [Disk.held_shelf, Disk.holding_of_file owns.stands] at held
  rw [held, ← grows.holding]
  rfl

end ArchiveWriter
end TileBindery
