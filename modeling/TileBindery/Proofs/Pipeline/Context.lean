import Mathlib.Logic.Relation
import TileBindery.Proofs.Disk.Leeway
import TileBindery.Proofs.Disk.Roads
import TileBindery.Proofs.Pipeline.Run
import TileBindery.Proofs.Spill.Releases

/-!
# Stages that keep to their context

A stage gets the sorter of a run, its node table and nothing else.  Whatever it does with them, in
whatever order and however often it fails, the disk changes in the run's directory only.
-/

namespace TileBindery

/-! ### What stages do -/

namespace BuildState

variable {σ : Type}

/-- What a stage does to a run through its context: it emits features, fills the node table, sorts,
reads on what it has got from the sorter, and changes a state of its own.  The merges are those that
stages have got and not given up. -/
inductive Act [Codec] : BuildState σ × List Merge → BuildState σ × List Merge → Prop where
  | emit (state : BuildState σ) (merges : List Merge) (feature : Feature) :
      Act (state, merges) ((state.emit feature).2, merges)
  | put (state : BuildState σ) (merges : List Merge) (id value : UInt64) :
      Act (state, merges) ((state.put id value).2, merges)
  | finishNodes (state : BuildState σ) (merges : List Merge) :
      Act (state, merges) (state.finishNodes.2, merges)
  | own (state : BuildState σ) (merges : List Merge) (value : σ) :
      Act (state, merges) ({ state with own := value }, merges)
  | sort (state : BuildState σ) (merges : List Merge) :
      Act (state, merges)
        ({ state with
            sorter := (state.sorter.sort state.disk).2.1
            disk := (state.sorter.sort state.disk).2.2 },
          (state.sorter.sort state.disk).1.toOption.toList ++ merges)
  | next (state : BuildState σ) (before : List Merge) (merge : Merge) (after : List Merge) :
      Act (state, before ++ merge :: after)
        ({ state with disk := (merge.next state.disk).2.2 },
          before ++ (merge.next state.disk).2.1 :: after)
  | discard (state : BuildState σ) (before : List Merge) (merge : Merge) (after : List Merge) :
      Act (state, before ++ merge :: after)
        ({ state with disk := merge.discard state.disk }, before ++ after)

end BuildState

namespace Stage

variable {σ : Type}

end Stage

/-- What a run may leave changed.  Without its archive being `opened` this is no more than directories
on the way to its workspace. -/
def Pipeline.footprint (workspace output : String) (config : ArchiveConfig) (opened : Prop)
    (start : Disk) : Leeway where
  start := start
  own _ := False
  roads place := (Path.ofText workspace).Passes place ∨
    opened ∧ ∃ parent, (Path.ofText output).parent? = some parent ∧ parent.Passes place
  targets place := opened ∧
    ∃ index < config.shards, (Path.ofText (Routing.shardPath output index)).location = place
  appended number := opened ∧ config.append = true ∧ ∃ index < config.shards,
    start.lookup (Path.ofText (Routing.shardPath output index)).location = some (.file number)

namespace RunSite

theorem inside_temporary (site : RunSite) (number : Nat) :
    site.Inside (Path.ofText (Chunk.temporaryPath site.chunks number)).location := by
  rw [Inside, Chunk.temporaryPath, Path.location_join (Chunk.isName_temporary number), chunks,
    Path.location_join isName_chunks, List.append_assoc]
  exact List.prefix_append _ _

/-- What a run that works at a site may change until its directory is removed. -/
def leeway (site : RunSite) (workspace : String) (opened : Prop) (start : Disk) : Leeway :=
  { Pipeline.footprint workspace site.output site.archive opened start with own := site.Inside }

end RunSite

namespace Leeway

variable {leeway : Leeway} {disk after : Disk}

/-- Chunk files may be removed in the own place. -/
theorem Allows.of_releases {gone : List Chunk} (allows : leeway.Allows disk)
    (released : Chunk.Releases disk gone after)
    (inside : ∀ chunk ∈ gone, leeway.own chunk.location) : leeway.Allows after := by
  apply allows.of_sheds released.sheds
  intro place changed
  refine Classical.byContradiction fun outer => changed (released.others place fun member => outer ?_)
  obtain ⟨chunk, own, rfl⟩ := List.mem_map.1 member
  exact inside chunk own

end Leeway

namespace NodeTable

variable {table : NodeTable} {safe : Disk → Prop} {fits : OpenFile → Prop} {disk : Disk}

/-- A node table operation has left a safe disk and a table that fits. -/
structure Upheld {α : Type} (table : NodeTable) (safe : Disk → Prop) (fits : OpenFile → Prop)
    (outcome : α × NodeTable × Disk) : Prop where
  path : outcome.2.1.path = table.path
  /-- A table that is filled is held by something that fits. -/
  filling : ∀ buffer last, outcome.2.1.phase = .filling buffer last → fits buffer.handle
  safe : safe outcome.2.2

theorem upheld_put (upholds : table.outlet.Upholds safe fits)
    (filling : ∀ buffer last, table.phase = .filling buffer last → fits buffer.handle)
    (id value : UInt64) (still : safe disk) :
    Upheld table safe fits (table.put id value disk) := by
  rw [put]
  split
  next buffer last phase =>
    have taken := WriteBuffer.upheld_writeAll upholds capacity [word id, word value]
      (filling buffer last phase) still
    split
    · exact ⟨rfl, filling, still⟩
    · generalize buffer.writeAll table.outlet capacity [word id, word value] disk = outcome at taken
      obtain ⟨error | _, next, behind⟩ := outcome
      · refine ⟨rfl, ?_, taken.safe⟩
        rintro _ _ ⟨⟩
        exact taken.fits
      · refine ⟨rfl, ?_, taken.safe⟩
        rintro _ _ ⟨⟩
        exact taken.fits
  next => exact ⟨rfl, filling, still⟩

theorem upheld_finish (upholds : table.outlet.Upholds safe fits)
    (filling : ∀ buffer last, table.phase = .filling buffer last → fits buffer.handle)
    (still : safe disk) : Upheld table safe fits (table.finish disk) := by
  rw [finish]
  split
  next buffer last phase =>
    have flushed := WriteBuffer.upheld_flush upholds (filling buffer last phase) still
    generalize buffer.flush table.outlet disk = outcome at flushed
    obtain ⟨error | _, next, behind⟩ := outcome
    · refine ⟨rfl, ?_, flushed.safe⟩
      rintro _ _ ⟨⟩
      exact flushed.fits
    · dsimp only
      split
      · refine ⟨rfl, ?_, flushed.safe⟩
        rintro _ _ ⟨⟩
      · split
        · refine ⟨rfl, ?_, flushed.safe⟩
          rintro _ _ ⟨⟩
          exact flushed.fits
        · refine ⟨rfl, ?_, flushed.safe⟩
          rintro _ _ ⟨⟩
  next => exact ⟨rfl, filling, still⟩

end NodeTable

namespace BuildState

variable {σ : Type} {site : RunSite} {workspace : String} {opened : Prop} {made : Disk}
  {state : BuildState σ} {merges : List Merge}

/-- The disk of a run is within bounds, and whatever the run still holds lies in its directory. -/
structure Contained (site : RunSite) (workspace : String) (opened : Prop) (made : Disk)
    (held : BuildState σ × List Merge) : Prop where
  disk : (site.leeway workspace opened made).Allows held.1.disk
  /-- The sorter spills into the run's directory. -/
  chunksAt : held.1.sorter.directory = site.chunks
  /-- So far it has done so. -/
  chunks : ∀ chunk ∈ held.1.sorter.chunks, site.Inside chunk.location
  /-- No run of a merge has been read on behind an error. -/
  tidy : ∀ merge ∈ held.2, merge.Tidy
  /-- Merges read files in the run's directory. -/
  merging : ∀ merge ∈ held.2, ∀ chunk ∈ merge.chunks, site.Inside chunk.location
  /-- The node table is there as well. -/
  nodesAt : held.1.nodes.path = site.nodes
  /-- It is written to a new file. -/
  filling : ∀ buffer last, held.1.nodes.phase = .filling buffer last →
    (site.leeway workspace opened made).Fits buffer.handle

namespace Contained

theorem emit [Codec] (contained : Contained site workspace opened made (state, merges))
    (feature : Feature) :
    Contained site workspace opened made ((state.emit feature).2, merges) := by
  have result := Sorter.added state.sorter feature state.disk
  rw [BuildState.emit]
  generalize state.sorter.add feature state.disk = outcome at result
  cases result with
  | tooLarge | refused | late | buffered => exact { contained with }
  | @spilled chunk behind _ _ wrote =>
      obtain ⟨octets, -, shape, stored⟩ := Chunk.stored_of_write wrote
      have directory : (state.sorter.push feature).directory = site.chunks := contained.chunksAt
      rw [directory] at shape stored
      have inside := site.inside_chunk (state.sorter.push feature).nextChunk
      refine { contained with disk := contained.disk.of_stored stored (.inl inside), chunks := ?_ }
      intro other member
      rcases List.mem_append.1 member with old | new
      · exact contained.chunks other old
      · rw [List.mem_singleton.1 new, shape]
        exact inside
  | @lost error behind _ _ failed =>
      have directory : (state.sorter.push feature).directory = site.chunks := contained.chunksAt
      rw [Sorter.writeBuffer, directory] at failed
      refine { contained with disk := ?_ }
      apply contained.disk.of_removed (Chunk.files_of_write_error failed)
      intro location
      refine (Chunk.lookup_of_write_error failed location).imp_right ?_
      rintro ⟨rfl, stood, -⟩
      exact ⟨site.inside_temporary _, stood⟩

/-- The file of the node table stays within bounds. -/
theorem upholds (contained : Contained site workspace opened made (state, merges)) :
    state.nodes.outlet.Upholds (site.leeway workspace opened made).Allows
      (site.leeway workspace opened made).Fits := by
  apply Leeway.upholds_outlet
  · left
    rw [contained.nodesAt]
    exact site.inside_nodes
  · rintro ⟨⟩

theorem of_upheld {α : Type} {outcome : α × NodeTable × Disk}
    (contained : Contained site workspace opened made (state, merges))
    (upheld : state.nodes.Upheld (site.leeway workspace opened made).Allows
      (site.leeway workspace opened made).Fits outcome) :
    Contained site workspace opened made
      ({ state with nodes := outcome.2.1, disk := outcome.2.2 }, merges) :=
  { contained with
    disk := upheld.safe
    nodesAt := upheld.path.trans contained.nodesAt
    filling := upheld.filling }

theorem put (contained : Contained site workspace opened made (state, merges)) (id value : UInt64) :
    Contained site workspace opened made ((state.put id value).2, merges) :=
  contained.of_upheld (NodeTable.upheld_put contained.upholds contained.filling id value
    contained.disk)

theorem finishNodes (contained : Contained site workspace opened made (state, merges)) :
    Contained site workspace opened made (state.finishNodes.2, merges) :=
  contained.of_upheld (NodeTable.upheld_finish contained.upholds contained.filling contained.disk)

/-- Sorting keeps the disk within bounds, and the merge that it starts reads files in the run's
directory. -/
theorem sort [Codec] (contained : Contained site workspace opened made (state, merges)) :
    Contained site workspace opened made
      ({ state with
          sorter := (state.sorter.sort state.disk).2.1
          disk := (state.sorter.sort state.disk).2.2 },
        (state.sorter.sort state.disk).1.toOption.toList ++ merges) := by
  rw [Sorter.sort]
  split
  next => exact contained
  next => exact contained
  next collecting =>
    obtain ⟨gone, released, shares⟩ := Merge.releases_ofRuns state.sorter.chunks
      (Sorter.inKeyOrder state.sorter.buffer.toList) state.disk
    have tidy {merge : Merge} {behind : Disk} := @Merge.tidy_ofRuns _ state.sorter.chunks
      (Sorter.inKeyOrder state.sorter.buffer.toList) state.disk behind merge
    generalize Merge.ofRuns state.sorter.chunks _ state.disk = outcome at released shares tidy
    obtain ⟨result, behind⟩ := outcome
    have dropped : ∀ chunk ∈ gone, site.Inside chunk.location := fun chunk member =>
      contained.chunks chunk (shares.symm.subset (List.mem_append_left _ member))
    refine ⟨contained.disk.of_releases released dropped, contained.chunksAt, ?_, ?_, ?_,
      contained.nodesAt, contained.filling⟩
    · exact fun chunk member => absurd member List.not_mem_nil
    · intro merge member
      rcases List.mem_append.1 member with new | old
      · cases result with
        | error error => cases new
        | ok started =>
            obtain rfl := List.mem_singleton.1 new
            exact tidy rfl
      · exact contained.tidy merge old
    · intro merge member chunk own
      rcases List.mem_append.1 member with new | old
      · cases result with
        | error error => cases new
        | ok started =>
            obtain rfl := List.mem_singleton.1 new
            exact contained.chunks chunk (shares.symm.subset (List.mem_append_right _ own))
      · exact contained.merging merge old chunk own

section Reading

variable {before after : List Merge} {merge : Merge}

/-- What a merge lets go lies in the run's directory. -/
theorem allows_of_gone {gone : List Chunk} {behind : Disk}
    (contained : Contained site workspace opened made (state, before ++ merge :: after))
    (released : Chunk.Releases state.disk gone behind) (inside : gone ⊆ merge.chunks) :
    (site.leeway workspace opened made).Allows behind := by
  apply contained.disk.of_releases released
  intro chunk member
  exact contained.merging merge (List.mem_append_right _ List.mem_cons_self) chunk (inside member)

theorem next (contained : Contained site workspace opened made (state, before ++ merge :: after)) :
    Contained site workspace opened made
      ({ state with disk := (merge.next state.disk).2.2 },
        before ++ (merge.next state.disk).2.1 :: after) := by
  have own : merge ∈ before ++ merge :: after := List.mem_append_right _ List.mem_cons_self
  have others {other : Merge} (member : other ∈ before ++ (merge.next state.disk).2.1 :: after) :
      other = (merge.next state.disk).2.1 ∨ other ∈ before ++ merge :: after := by
    rcases List.mem_append.1 member with early | late
    · exact .inr (List.mem_append_left _ early)
    · rcases List.mem_cons.1 late with same | behind
      · exact .inl same
      · exact .inr (List.mem_append_right _ (List.mem_cons_of_mem _ behind))
  have tidy := contained.tidy merge own
  obtain ⟨gone, released, shares⟩ := Merge.releases_next tidy state.disk
  refine { contained with
    disk := contained.allows_of_gone released
      (List.Subset.trans (List.subset_append_left _ _) shares.symm.subset)
    tidy := fun other member => ?_
    merging := fun other member chunk inner => ?_ }
  · rcases others member with rfl | old
    · exact Merge.tidy_next tidy state.disk
    · exact contained.tidy other old
  · rcases others member with rfl | old
    · exact contained.merging merge own chunk
        (shares.symm.subset (List.mem_append_right _ inner))
    · exact contained.merging other old chunk inner

theorem discard (contained : Contained site workspace opened made (state, before ++ merge :: after)) :
    Contained site workspace opened made
      ({ state with disk := merge.discard state.disk }, before ++ after) := by
  have others {other : Merge} (member : other ∈ before ++ after) :
      other ∈ before ++ merge :: after := by
    rcases List.mem_append.1 member with early | late
    · exact List.mem_append_left _ early
    · exact List.mem_append_right _ (List.mem_cons_of_mem _ late)
  exact { contained with
    disk := contained.allows_of_gone (Merge.releases_discard merge state.disk)
      (List.Subset.refl _)
    tidy := fun other member => contained.tidy other (others member)
    merging := fun other member => contained.merging other (others member) }

end Reading

theorem act [Codec] {held later : BuildState σ × List Merge}
    (contained : Contained site workspace opened made held) (act : Act held later) :
    Contained site workspace opened made later := by
  cases act with
  | emit _ _ feature => exact contained.emit feature
  | put _ _ id value => exact contained.put id value
  | finishNodes => exact contained.finishNodes
  | own _ _ value => exact { contained with }
  | sort => exact contained.sort
  | next => exact contained.next
  | discard => exact contained.discard

end Contained
end BuildState
end TileBindery
