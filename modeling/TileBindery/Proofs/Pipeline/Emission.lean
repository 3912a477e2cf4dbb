import TileBindery.Pipeline.Run
import TileBindery.Proofs.Archive.Writers
import TileBindery.Proofs.Spill.SorterState

/-!
# Stages that emit features

The stages of a run feed its sorter and its node table, and may do other things as long as they
leave alone what lies in the run's directory.  Whatever they do in whatever order, in the end the
sorter holds the features that were emitted, in order.
-/

namespace TileBindery

/-- Where a run works and where its archive goes. -/
structure RunSite where
  /-- Path of the run's directory. -/
  directory : String
  /-- Path of the archive. -/
  output : String
  /-- Options of the archive. -/
  archive : ArchiveConfig

namespace RunSite

/-- Where the chunk files are. -/
def chunks (site : RunSite) : String := Path.join site.directory "feature.db"

/-- Where the node table is. -/
def nodes (site : RunSite) : String := Path.join site.directory "node.db"

/-- A place lies in the run's directory. -/
def Inside (site : RunSite) (location : Location) : Prop :=
  (Path.ofText site.directory).location <+: location

/-- No shard's path leads into the run's directory, not even on its way. -/
def Apart (site : RunSite) : Prop :=
  ∀ index < site.archive.shards, ∃ name ∈ (Path.ofText site.directory).location,
    name ∉ (Path.ofText (Routing.shardPath site.output index)).parts

/-- No file stands where a shard is appended to. -/
def Vacant (site : RunSite) (disk : Disk) : Prop :=
  site.archive.append = true → ArchiveWriter.Vacant site.output disk 0 site.archive.shards

/-- Others have changed a disk: what lies in the run's directory is as before, no directory is gone,
and still no file stands where a shard is appended to. -/
structure Spares (site : RunSite) (disk other : Disk) : Prop where
  /-- Everything in the run's directory stands where it stood. -/
  entries : ∀ location, site.Inside location → other.lookup location = disk.lookup location
  /-- No directory is gone. -/
  keeps : ∀ location, disk.lookup location = some .directory →
    other.lookup location = some .directory
  /-- No file is forgotten. -/
  files : disk.files.length ≤ other.files.length
  /-- Files in the run's directory hold what they held. -/
  contents : ∀ location number, site.Inside location →
    disk.lookup location = some (.file number) → other.contents number = disk.contents number
  /-- Shards are still to be written to new files. -/
  vacant : site.Vacant other

variable {site : RunSite}

theorem Apart.not_inside (apart : site.Apart) {index : Nat} (below : index < site.archive.shards)
    {location : Location}
    (names : ∀ name ∈ location,
      name ∈ (Path.ofText (Routing.shardPath site.output index)).parts) :
    ¬site.Inside location := by
  intro inside
  obtain ⟨name, own, other⟩ := apart index below
  exact other (names name (inside.subset own))

theorem isName_chunks : Path.IsName "feature.db" := ⟨by decide, by decide, by decide, by decide⟩

theorem isName_nodes : Path.IsName "node.db" := ⟨by decide, by decide, by decide, by decide⟩

theorem location_nodes (site : RunSite) : (Path.ofText site.nodes).location =
    (Path.ofText site.directory).location ++ ["node.db"] :=
  Path.location_join isName_nodes site.directory

theorem location_chunk (site : RunSite) (number : Nat) :
    (Path.ofText (Chunk.chunkPath site.chunks number)).location =
      (Path.ofText site.directory).location ++
        ["feature.db", "chunk-" ++ Path.numberText number ++ ".chunk"] := by
  rw [Chunk.location_chunkPath, chunks, Path.location_join isName_chunks, List.append_assoc,
    List.singleton_append]

theorem inside_nodes (site : RunSite) : site.Inside (Path.ofText site.nodes).location := by
  rw [Inside, location_nodes]
  exact List.prefix_append _ _

theorem inside_chunk (site : RunSite) (number : Nat) :
    site.Inside (Path.ofText (Chunk.chunkPath site.chunks number)).location := by
  rw [Inside, location_chunk]
  exact List.prefix_append _ _

theorem chunk_apart_nodes (site : RunSite) (number : Nat) :
    (Path.ofText (Chunk.chunkPath site.chunks number)).location ≠
      (Path.ofText site.nodes).location := by
  rw [location_chunk, location_nodes]
  intro same
  have lengths := congrArg List.length (List.append_cancel_left same)
  simp at lengths

/-- A file that comes to the run's directory stands in no shard's way. -/
theorem vacant_of_stored {disk after : Disk} {path : Path} {octets : Bytes} (apart : site.Apart)
    (inside : site.Inside path.location)
    (vacant : ArchiveWriter.Vacant site.output disk 0 site.archive.shards)
    (stored : disk.Stored path octets after) :
    ArchiveWriter.Vacant site.output after 0 site.archive.shards := by
  intro index above below number stands
  have shard_below : index < site.archive.shards := by simpa using below
  by_cases root : (Path.ofText (Routing.shardPath site.output index)).location = []
  · rw [root, Disk.lookup_nil] at stands
    cases stands
  · have other : (Path.ofText (Routing.shardPath site.output index)).location ≠ path.location := by
      intro same
      refine apart.not_inside shard_below (fun _ => Path.mem_parts_of_mem_location) ?_
      rw [same]
      exact inside
    rw [stored.entries _ root, if_neg other] at stands
    exact vacant index above below number stands

theorem Vacant.of_stored {disk after : Disk} {path : Path} {octets : Bytes} (apart : site.Apart)
    (inside : site.Inside path.location) (vacant : site.Vacant disk)
    (stored : disk.Stored path octets after) : site.Vacant after :=
  fun append => vacant_of_stored apart inside (vacant append) stored

theorem Vacant.of_lookup {disk after : Disk} (vacant : site.Vacant disk)
    (same : ∀ location number, after.lookup location = some (.file number) →
      disk.lookup location = some (.file number)) : site.Vacant after :=
  fun append => (vacant append).of_lookup same

end RunSite

namespace BuildState

variable [Codec] {σ : Type}

/-- What the stages of a run do: emit features, fill the node table, and act elsewhere. -/
inductive Emits (site : RunSite) : BuildState σ → List Feature → BuildState σ → Prop where
  /-- They are done. -/
  | nil (state : BuildState σ) : Emits site state [] state
  /-- A feature is emitted. -/
  | emit {state next last : BuildState σ} {feature : Feature} {features : List Feature}
      (accepted : state.emit feature = (.ok (), next)) (rest : Emits site next features last) :
      Emits site state (feature :: features) last
  /-- An entry is offered to the node table. -/
  | put {state last : BuildState σ} {features : List Feature} (id value : UInt64)
      (rest : Emits site (state.put id value).2 features last) : Emits site state features last
  /-- The node table is sealed. -/
  | finishNodes {state last : BuildState σ} {features : List Feature}
      (rest : Emits site state.finishNodes.2 features last) : Emits site state features last
  /-- A state of their own changes. -/
  | own {state last : BuildState σ} {features : List Feature} (value : σ)
      (rest : Emits site { state with own := value } features last) : Emits site state features last
  /-- The disk changes elsewhere. -/
  | elsewhere {state last : BuildState σ} {features : List Feature} {other : Disk}
      (spares : site.Spares state.disk other)
      (rest : Emits site { state with disk := other } features last) :
      Emits site state features last

/-- The sorter of a run holds the features emitted so far, and nothing stands in the way of what is
still to be written. -/
structure Ready (site : RunSite) (features : List Feature) (state : BuildState σ) : Prop where
  /-- Buffers stay countable. -/
  bytes : state.sorter.config.chunkBytes < 2 ^ 64
  /-- The sorter holds the features. -/
  sorter : state.sorter.Holds state.disk features
  /-- Its chunks go to the run's directory. -/
  chunksAt : state.sorter.directory = site.chunks
  /-- So does the node table. -/
  nodesAt : state.nodes.path = site.nodes
  /-- A node table that is filled is written to a file that is no chunk's. -/
  filling : ∀ buffer last, state.nodes.phase = .filling buffer last →
    (∃ octets, buffer.Writes state.disk octets) ∧
      state.disk.lookup (Path.ofText site.nodes).location = some (.file buffer.handle.number) ∧
      ∀ chunk ∈ state.sorter.chunks,
        state.disk.lookup (Path.ofText chunk.path).location ≠ some (.file buffer.handle.number)
  /-- Shards can be written to new files. -/
  vacant : site.Vacant state.disk

variable {site : RunSite} {features : List Feature} {state next last : BuildState σ}

/-- A chunk that is stored leaves the file of the node table alone. -/
theorem Ready.filling_of_stored {number : Nat} {chunk : Chunk} {behind : Disk} {octets : Bytes}
    (ready : state.Ready site features) (path : chunk.path = Chunk.chunkPath site.chunks number)
    (stored : state.disk.Stored (Path.ofText (Chunk.chunkPath site.chunks number)) octets behind)
    {buffer : WriteBuffer OpenFile} {last : Option UInt64}
    (phase : state.nodes.phase = .filling buffer last) :
    (∃ octets, buffer.Writes behind octets) ∧
      behind.lookup (Path.ofText site.nodes).location = some (.file buffer.handle.number) ∧
      ∀ other ∈ state.sorter.chunks ++ [chunk],
        behind.lookup (Path.ofText other.path).location ≠ some (.file buffer.handle.number) := by
  obtain ⟨⟨taken, writes⟩, stands, others⟩ := ready.filling buffer last phase
  refine ⟨⟨taken, writes.of_contents ?_ (stored.contents_old _ writes.real)⟩, ?_, ?_⟩
  · rw [stored.files]
    exact Nat.le_succ _
  · have inner : (Path.ofText site.nodes).location ≠ [] := by
      simp [RunSite.location_nodes]
    rw [stored.entries _ inner, if_neg (site.chunk_apart_nodes _).symm]
    exact stands
  · intro other member other_stands
    by_cases root : (Path.ofText other.path).location = []
    · rw [root, Disk.lookup_nil] at other_stands
      cases other_stands
    · rw [stored.entries _ root] at other_stands
      split at other_stands
      next =>
        have fresh : state.disk.files.length = buffer.handle.number := by
          simpa using other_stands
        exact absurd writes.real (by omega)
      next apart =>
        rcases List.mem_append.1 member with old | new
        · exact others other old other_stands
        · rw [List.mem_singleton.1 new, path] at apart
          exact apart rfl

/-- An emitted feature is held behind all others. -/
theorem Ready.emit {feature : Feature} (ready : state.Ready site features) (apart : site.Apart)
    (accepted : state.emit feature = (.ok (), next)) : next.Ready site (features ++ [feature]) := by
  rw [BuildState.emit] at accepted
  cases outcome : state.sorter.add feature state.disk with
  | mk result rest =>
      obtain ⟨after, behind⟩ := rest
      rw [outcome] at accepted
      cases result with
      | error error => simp [Except.mapError] at accepted
      | ok =>
          cases accepted
          obtain ⟨holds, config, directory⟩ := ready.sorter.add ready.bytes outcome
          have result := Sorter.added state.sorter feature state.disk
          rw [outcome] at result
          have bytes := config ▸ ready.bytes
          have chunks_at := directory.trans ready.chunksAt
          cases result with
          | buffered =>
              exact ⟨bytes, holds, chunks_at, ready.nodesAt, ready.filling, ready.vacant⟩
          | spilled fits collecting written =>
              obtain ⟨_, -, shape, stored⟩ := Chunk.stored_of_write written
              have place : (state.sorter.push feature).directory = site.chunks := ready.chunksAt
              rw [place] at shape stored
              exact ⟨bytes, holds, chunks_at, ready.nodesAt,
                fun _ _ => ready.filling_of_stored (congrArg Chunk.path shape) stored,
                ready.vacant.of_stored apart (site.inside_chunk _) stored⟩

/-- Writing to the file of the node table disturbs nothing. -/
theorem Ready.of_rewrites {number : Nat} {behind : Disk} {nodes : NodeTable}
    (ready : state.Ready site features) (rewrites : state.disk.Rewrites (· = number) behind)
    (others : ∀ chunk ∈ state.sorter.chunks,
      state.disk.lookup (Path.ofText chunk.path).location ≠ some (.file number))
    (stands : state.disk.lookup (Path.ofText site.nodes).location = some (.file number))
    (path : nodes.path = state.nodes.path)
    (filling : ∀ buffer last, nodes.phase = .filling buffer last →
      (∃ octets, buffer.Writes behind octets) ∧ buffer.handle.number = number) :
    Ready site features { state with nodes, disk := behind } where
  bytes := ready.bytes
  sorter := by
    refine ready.sorter.of_undisturbed fun chunk member octets found _ => ?_
    refine rewrites.read ?_ found
    rintro other chunk_stands rfl
    exact others chunk member chunk_stands
  chunksAt := ready.chunksAt
  nodesAt := path.trans ready.nodesAt
  filling := by
    intro buffer last phase
    obtain ⟨writes, rfl⟩ := filling buffer last phase
    refine ⟨writes, (rewrites.entries _).trans stands, fun chunk member => ?_⟩
    rw [rewrites.entries]
    exact others chunk member
  vacant := ready.vacant.of_lookup fun location number stands =>
    (rewrites.entries location) ▸ stands

theorem Ready.put (ready : state.Ready site features) (id value : UInt64) :
    (state.put id value).2.Ready site features := by
  rw [BuildState.put, NodeTable.put]
  cases phase : state.nodes.phase with
  | sealed file entries => exact { ready with }
  | sealedEmpty => exact { ready with }
  | filling buffer last =>
      obtain ⟨⟨octets, writes⟩, stands, others⟩ := ready.filling buffer last phase
      have taken := writes.writeAll false state.nodes.path
        (show 0 < NodeTable.capacity by decide) [NodeTable.word id, NodeTable.word value]
      dsimp only
      split
      next => exact { ready with }
      next =>
        rw [NodeTable.outlet]
        generalize buffer.writeAll (Disk.outlet false state.nodes.path) NodeTable.capacity
          [NodeTable.word id, NodeTable.word value] state.disk = outcome at taken
        obtain ⟨result, after, behind⟩ := outcome
        obtain ⟨rfl, same, kept, rewrites⟩ := taken
        refine ready.of_rewrites rewrites others stands rfl ?_
        rintro _ _ ⟨⟩
        exact ⟨⟨_, kept⟩, same⟩

theorem Ready.finishNodes (ready : state.Ready site features) :
    state.finishNodes.2.Ready site features := by
  rw [BuildState.finishNodes, NodeTable.finish]
  cases phase : state.nodes.phase with
  | sealed file entries => exact { ready with }
  | sealedEmpty => exact { ready with }
  | filling buffer last =>
      obtain ⟨⟨octets, writes⟩, stands, others⟩ := ready.filling buffer last phase
      obtain ⟨taken, -⟩ := writes.flush false state.nodes.path
      dsimp only
      rw [NodeTable.outlet]
      generalize buffer.flush (Disk.outlet false state.nodes.path) state.disk = outcome at taken
      obtain ⟨result, after, behind⟩ := outcome
      obtain ⟨rfl, same, kept, rewrites⟩ := taken
      dsimp only
      split
      next =>
        refine ready.of_rewrites rewrites others stands rfl ?_
        rintro _ _ ⟨⟩
      next =>
        split
        next =>
          refine ready.of_rewrites rewrites others stands rfl ?_
          rintro _ _ ⟨⟩
          exact ⟨⟨_, kept⟩, same⟩
        next =>
          refine ready.of_rewrites rewrites others stands rfl ?_
          rintro _ _ ⟨⟩

theorem Ready.chunk_path (ready : state.Ready site features) {chunk : Chunk}
    (member : chunk ∈ state.sorter.chunks) :
    chunk.path = Chunk.chunkPath site.chunks chunk.number := by
  obtain ⟨slices, stored, -⟩ := ready.sorter.slices
  obtain ⟨slice, -, holds⟩ := exists_right_of_forall₂ stored member
  rw [holds.path, ready.chunksAt]

/-- What others do elsewhere does not matter. -/
theorem Ready.elsewhere {other : Disk} (ready : state.Ready site features)
    (spares : site.Spares state.disk other) :
    Ready site features { state with disk := other } where
  bytes := ready.bytes
  sorter := by
    refine ready.sorter.of_undisturbed fun chunk member octets found _ => ?_
    have inside := site.inside_chunk chunk.number
    rw [← ready.chunk_path member] at inside
    obtain ⟨reaches, number, stands, holds⟩ := Disk.read_iff.1 found
    refine Disk.read_iff.2 ⟨reaches.of_keeps fun location _ => spares.keeps location, number, ?_, ?_⟩
    · rw [spares.entries _ inside, stands]
    · rw [spares.contents _ _ inside stands, holds]
  chunksAt := ready.chunksAt
  nodesAt := ready.nodesAt
  filling := by
    intro buffer last phase
    obtain ⟨⟨octets, writes⟩, stands, others⟩ := ready.filling buffer last phase
    refine ⟨⟨octets, writes.of_contents spares.files ?_⟩, ?_, fun chunk member => ?_⟩
    · exact spares.contents _ _ site.inside_nodes stands
    · rw [spares.entries _ site.inside_nodes, stands]
    · have inside := site.inside_chunk chunk.number
      rw [← ready.chunk_path member] at inside
      rw [spares.entries _ inside]
      exact others chunk member
  vacant := spares.vacant

/-- Whatever stages do, in the end the sorter holds all that they have emitted. -/
theorem Emits.ready {emitted : List Feature} (emits : state.Emits site emitted last)
    (apart : site.Apart) (ready : state.Ready site features) :
    last.Ready site (features ++ emitted) := by
  induction emits generalizing features with
  | nil => rwa [List.append_nil]
  | emit accepted _ ih =>
      have behind := ih (ready.emit apart accepted)
      rwa [List.append_assoc] at behind
  | put id value _ ih => exact ih (ready.put id value)
  | finishNodes _ ih => exact ih ready.finishNodes
  | own value _ ih => exact ih { ready with }
  | elsewhere spares _ ih => exact ih (ready.elsewhere spares)

/-- Stages leave the settings of the sorter alone. -/
theorem Emits.config {emitted : List Feature} (emits : state.Emits site emitted last) :
    last.sorter.config = state.sorter.config := by
  induction emits with
  | nil => rfl
  | put _ _ _ ih | finishNodes _ ih | own _ _ ih | elsewhere _ _ ih => exact ih
  | @emit state next _ feature _ accepted _ ih =>
      have kept := Sorter.config_add state.sorter feature state.disk
      rw [BuildState.emit] at accepted
      obtain ⟨-, rfl⟩ := Prod.mk.inj accepted
      exact ih.trans kept

theorem Emits.append {middle : BuildState σ} {front back : List Feature}
    (first : state.Emits site front middle) (second : middle.Emits site back last) :
    state.Emits site (front ++ back) last := by
  induction first with
  | nil => exact second
  | emit accepted _ ih => exact .emit accepted (ih second)
  | put id value _ ih => exact .put id value (ih second)
  | finishNodes _ ih => exact .finishNodes (ih second)
  | own value _ ih => exact .own value (ih second)
  | elsewhere spares _ ih => exact .elsewhere spares (ih second)

/-- Work that emits features one by one emits them. -/
theorem emits_forEach (site : RunSite)
    (done : forEach emit features state = (.ok (), last)) : state.Emits site features last := by
  induction features generalizing state with
  | nil =>
      cases done
      exact .nil last
  | cons feature rest ih =>
      rw [forEach] at done
      cases accepted : state.emit feature with
      | mk result next =>
          rw [accepted] at done
          cases result with
          | error error => cases done
          | ok => exact .emit accepted (ih done)

end BuildState

namespace Stage

variable [Codec] {σ : Type} {site : RunSite} {settings : Settings} {profile : Profile σ}

/-- The stages of a build that run emit features between them, and none of them fails. -/
inductive Emit (site : RunSite) (settings : Settings) (profile : Profile σ) :
    List (Stage σ) → BuildState σ → List Feature → BuildState σ → Prop where
  /-- There is no stage left. -/
  | nil (state : BuildState σ) : Emit site settings profile [] state [] state
  /-- A stage is left out. -/
  | skipped {stage : Stage σ} {rest : List (Stage σ)} {state last : BuildState σ}
      {features : List Feature} (skipped : stage.isSkipped profile = true)
      (others : Emit site settings profile rest state features last) :
      Emit site settings profile (stage :: rest) state features last
  /-- A stage runs. -/
  | ran {stage : Stage σ} {rest : List (Stage σ)} {state next last : BuildState σ}
      {front back : List Feature} (runs : stage.isSkipped profile = false)
      (done : stage.task ⟨stage.name, settings, profile⟩ state = (.ok (), next))
      (emits : state.Emits site front next)
      (others : Emit site settings profile rest next back last) :
      Emit site settings profile (stage :: rest) state (front ++ back) last

theorem Emit.runAll {stages : List (Stage σ)} {state last : BuildState σ}
    {features : List Feature} (emit : Emit site settings profile stages state features last) :
    (∃ tally, Stage.runAll settings profile stages state = (.ok tally, last)) ∧
      state.Emits site features last := by
  induction emit with
  | nil state => exact ⟨⟨_, rfl⟩, .nil state⟩
  | skipped skipped _ ih =>
      obtain ⟨⟨tally, done⟩, emits⟩ := ih
      refine ⟨⟨{ tally with skipped := tally.skipped + 1 }, ?_⟩, emits⟩
      rw [Stage.runAll, if_pos skipped, done]
      rfl
  | ran runs done first _ ih =>
      obtain ⟨⟨tally, finished⟩, second⟩ := ih
      refine ⟨⟨{ tally with ran := tally.ran + 1 }, ?_⟩, first.append second⟩
      rw [Stage.runAll, if_neg (by simp [runs]), done]
      dsimp only
      rw [finished]
      rfl

end Stage
end TileBindery
