import TileBindery.Archive.Writer
import TileBindery.Proofs.Archive.ShardPaths
import TileBindery.Proofs.Archive.Shards
import TileBindery.Proofs.Disk.Directories

/-!
# Archives on a disk

Beginning an archive opens a new file for every shard, or the device refuses.  From then on nothing
fails: every tile goes behind what its shard has taken, and finishing leaves each shard's header,
tiles and footer in its file.
-/

namespace TileBindery
namespace ArchiveWriter

open Routing

section

variable {σ η : Type}

/-- Shards in order, with numbers from `first` on, are as `holds` says. -/
def Each (holds : Nat → Shard σ η → σ → Prop) (first : Nat) (shards : List (Shard σ η))
    (world : σ) : Prop :=
  ∀ (index : Nat) (shard : Shard σ η), shards[index]? = some shard →
    holds (first + index) shard world

theorem each_cons {holds : Nat → Shard σ η → σ → Prop} {first : Nat} {shard : Shard σ η}
    {shards : List (Shard σ η)} {world : σ} :
    Each holds first (shard :: shards) world ↔
      holds first shard world ∧ Each holds (first + 1) shards world := by
  constructor
  · intro all
    refine ⟨all 0 shard rfl, fun index other found => ?_⟩
    have later := all (index + 1) other found
    rwa [Nat.add_comm index 1, ← Nat.add_assoc] at later
  · rintro ⟨own, rest⟩ index other found
    cases index with
    | zero =>
        cases found
        exact own
    | succ index =>
        rw [List.getElem?_cons_succ] at found
        have later := rest index other found
        rwa [Nat.add_assoc, Nat.add_comm 1 index] at later

/-- Write tiles in order, up to the first that fails. -/
def writeAll (writer : ArchiveWriter σ η) : List (Tile × Option Bytes) → σ → Outcome σ η Unit
  | [], world => (.ok (), writer, world)
  | entry :: rest, world =>
      match writer.write entry.1 entry.2 world with
      | (.error error, writer, world) => (.error error, writer, world)
      | (.ok (), writer, world) => writeAll writer rest world

/-- Write an archive of tiles to unused shards: headers, the tiles and footers.  Gives what held the
destinations. -/
def archive (config : ArchiveConfig) (outlet : Nat → Outlet σ η) (first last : Metadata)
    (tiles : List (Tile × Option Bytes)) (world : σ) : Except ArchiveError (List η) × σ :=
  match ofOutlets config outlet with
  | .error error => (.error error, world)
  | .ok writer =>
      match writer.begin first world with
      | (.error error, _, world) => (.error error, world)
      | (.ok (), writer, world) =>
          match writer.writeAll tiles world with
          | (.error error, _, world) => (.error error, world)
          | (.ok (), writer, world) =>
              let (result, _, world) := writer.finish last world
              (result, world)

end

/-- Shards with numbers from `first` on are open, in files with numbers from `start + first` on, and
each has taken its text. -/
def AllOpen (config : ArchiveConfig) (base : String) (start : Nat) (text : Nat → Bytes)
    (disk : Disk) (first : Nat) (shards : List (Shard Disk OpenFile)) : Prop :=
  Each (fun index shard disk =>
    shard.Open config (shardPath base index) (start + index) (text index) disk) first shards disk

variable {config : ArchiveConfig} {base : String} {start first : Nat} {text : Nat → Bytes}
  {disk : Disk} {shards : List (Shard Disk OpenFile)} {writer : ArchiveWriter Disk OpenFile}

/-! ### Operations on all shards -/

variable {σ η α : Type} {operation : Shard σ η → σ → Shard.Outcome σ η α}

theorem forShards_error {shard failed : Shard σ η} {world behind : σ} {error : ArchiveError}
    (refused : operation shard world = (.error error, failed, behind)) (rest : List (Shard σ η)) :
    forShards operation (shard :: rest) world = (.error error, failed :: rest, behind) := by
  rw [forShards, refused]

theorem forShards_ok {shard next : Shard σ η} {world middle : σ} {value : α}
    (done : operation shard world = (.ok value, next, middle)) (rest : List (Shard σ η)) :
    forShards operation (shard :: rest) world =
      ((forShards operation rest middle).1.map (value :: ·),
        next :: (forShards operation rest middle).2.1, (forShards operation rest middle).2.2) := by
  rw [forShards, done]

/-- No file stands where shards with these numbers go. -/
def Vacant (base : String) (disk : Disk) (first count : Nat) : Prop :=
  ∀ index, first ≤ index → index < first + count → ∀ number,
    disk.lookup (Path.ofText (shardPath base index)).location ≠ some (.file number)

theorem Vacant.of_stored {behind : Disk} {held : Bytes} {count : Nat}
    (vacant : Vacant base disk first (count + 1))
    (stored : disk.Stored (Path.ofText (shardPath base first)) held behind) :
    Vacant base behind (first + 1) count := by
  intro index above below number stands
  have apart : (Path.ofText (shardPath base index)).location ≠
      (Path.ofText (shardPath base first)).location := by
    intro same
    have := location_shardPath_injective same
    omega
  by_cases inner : (Path.ofText (shardPath base index)).location = []
  · rw [inner, Disk.lookup_nil] at stands
    cases stands
  · rw [stored.entries _ inner, if_neg apart] at stands
    exact vacant index (by omega) (by omega) number stands

theorem Vacant.of_lookup {after : Disk} {count : Nat} (vacant : Vacant base disk first count)
    (same : ∀ location number, after.lookup location = some (.file number) →
      disk.lookup location = some (.file number)) : Vacant base after first count :=
  fun index above below number stands => vacant index above below number (same _ _ stands)

/-- Shards that have not been used, with numbers from `first` on. -/
def unused (config : ArchiveConfig) (base : String) (first count : Nat) :
    List (Shard Disk OpenFile) :=
  (List.range' first count).map fun index => .unused config index (shardPath base index)

/-- Shards with numbers from `first` on have been begun in order, each in a new file with the header
in it, up to those in `rest`, where the device has refused. -/
structure Begun (config : ArchiveConfig) (base : String) (start : Nat) (header : Bytes) (disk : Disk)
    (first : Nat) (opened rest : List (Shard Disk OpenFile)) (behind : Disk) : Prop where
  /-- They have taken the header. -/
  all : AllOpen config base start (fun _ => header) behind first opened
  /-- Nothing waits in front of the others. -/
  emptied : ∀ shard ∈ rest, shard.buffer = none
  /-- At their places stands what stood there. -/
  places : ∀ index, first + opened.length ≤ index →
    behind.lookup (Path.ofText (shardPath base index)).location =
      disk.lookup (Path.ofText (shardPath base index)).location
  /-- Shards that have been begun before stay open. -/
  stays : ∀ (index number : Nat) (octets : Bytes) (shard : Shard Disk OpenFile), index < first →
    shard.Open config (shardPath base index) number octets disk →
    shard.Open config (shardPath base index) number octets behind

/-- Beginning one more shard in front of others. -/
theorem Begun.cons {header held : Bytes} {shard : Shard Disk OpenFile}
    {opened rest : List (Shard Disk OpenFile)} {middle behind : Disk}
    (length : disk.files.length = start + first)
    (stored : disk.Stored (Path.ofText (shardPath base first)) held middle)
    (own : shard.Open config (shardPath base first) disk.files.length header middle)
    (begun : Begun config base start header middle (first + 1) opened rest behind) :
    Begun config base start header disk first (shard :: opened) rest behind where
  all := by
    rw [length] at own
    exact each_cons.2 ⟨begun.stays first _ _ shard (Nat.lt_succ_self _) own, begun.all⟩
  emptied := begun.emptied
  places index above := by
    rw [List.length_cons] at above
    rw [begun.places index (by omega)]
    by_cases root : (Path.ofText (shardPath base index)).location = []
    · rw [root, Disk.lookup_nil, Disk.lookup_nil]
    · rw [stored.entries _ root, if_neg fun same => ?_]
      have := location_shardPath_injective same
      omega
  stays index number octets other earlier open_before := by
    refine begun.stays index number octets other (Nat.lt_succ_of_lt earlier) ?_
    exact open_before.of_stored stored fun same =>
      Nat.ne_of_lt earlier (location_shardPath_injective same)

/-- Shards that are begun in order open new files with the header in them, up to one that the device
refuses. -/
theorem forShards_begin (metadata : Metadata) {count : Nat}
    (length : disk.files.length = start + first)
    (vacant : config.append = true → Vacant base disk first count) :
    ∃ result opened rest behind,
      forShards (·.begin metadata) (unused config base first count) disk =
        (result, opened ++ rest, behind) ∧
      Begun config base start (config.headerPieces metadata).flatten disk first opened rest behind ∧
      ((∃ reason, result = .error (.device reason)) ∨
        (∃ values, result = .ok values) ∧ rest = [] ∧ opened.length = count) := by
  induction count generalizing first disk with
  | zero =>
      exact ⟨.ok [], [], [], disk, rfl,
        ⟨by simp [AllOpen, Each], by simp, fun _ _ => rfl, fun _ _ _ _ _ same => same⟩,
        .inr ⟨⟨[], rfl⟩, rfl, rfl⟩⟩
  | succ count ih =>
      have split : unused config base first (count + 1) =
          .unused config first (shardPath base first) :: unused config base (first + 1) count := by
        rw [unused, List.range'_succ, List.map_cons, unused]
      rw [split]
      rcases Shard.begin_unused config first metadata
          (fun append => vacant append first (Nat.le_refl _) (by omega)) with
        ⟨reason, failed, refused, emptied⟩ | ⟨shard, middle, held, begun, stored, own⟩
      · rw [forShards_error refused]
        refine ⟨_, [], _, disk, rfl, ⟨by simp [AllOpen, Each], ?_, fun _ _ => rfl,
          fun _ _ _ _ _ same => same⟩, .inl ⟨reason, rfl⟩⟩
        intro other member
        rcases List.mem_cons.1 member with rfl | later
        · exact emptied
        · obtain ⟨index, -, rfl⟩ := List.mem_map.1 later
          rfl
      · rw [forShards_ok begun]
        have next_length : middle.files.length = start + (first + 1) := by
          rw [stored.files, length, Nat.add_assoc]
        obtain ⟨result, opened, rest, behind, done, others, ends⟩ :=
          ih next_length fun append => (vacant append).of_stored stored
        rw [done]
        refine ⟨_, shard :: opened, rest, behind, rfl, others.cons length stored own, ?_⟩
        rcases ends with ⟨reason, rfl⟩ | ⟨⟨values, rfl⟩, none, size⟩
        · exact .inl ⟨reason, rfl⟩
        · exact .inr ⟨⟨_, rfl⟩, none, by rw [List.length_cons, size]⟩

/-- Writing to the file of a shard leaves those behind it open. -/
theorem AllOpen.of_rewrites {middle : Disk}
    (all : AllOpen config base start text disk (first + 1) shards)
    (rewrites : disk.Rewrites (· = start + first) middle) :
    AllOpen config base start text middle (first + 1) shards := by
  intro index shard member
  refine (all index shard member).of_rewrites rewrites ?_
  omega

/-- The files of shards with numbers from `first` on hold what they are to hold, and no other file
has changed. -/
structure Stands (base : String) (start : Nat) (held : Nat → Bytes) (disk : Disk)
    (first count : Nat) (behind : Disk) : Prop where
  /-- Their paths lead to these contents. -/
  read : ∀ index < count, behind.read (Path.ofText (shardPath base (first + index))) =
    .ok (held (first + index))
  /-- Only their files have been written to. -/
  rewrites : disk.Rewrites (start + first ≤ ·) behind

theorem Stands.nil (held : Nat → Bytes) (disk : Disk) :
    Stands base start held disk first 0 disk :=
  ⟨by simp, .refl disk _⟩

/-- One more file in front of others. -/
theorem Stands.cons {held : Nat → Bytes} {count : Nat} {middle behind : Disk}
    (place : disk.lookup (Path.ofText (shardPath base first)).location =
      some (.file (start + first)))
    (rewrites : disk.Rewrites (· = start + first) middle)
    (found : middle.read (Path.ofText (shardPath base first)) = .ok (held first))
    (rest : Stands base start held middle (first + 1) count behind) :
    Stands base start held disk first (count + 1) behind where
  read index below := by
    cases index with
    | zero =>
        refine rest.rewrites.read ?_ found
        intro number stands
        cases ((rewrites.entries _).trans place).symm.trans stands
        omega
    | succ index =>
        have later := rest.read index (Nat.lt_of_succ_lt_succ below)
        rwa [Nat.add_assoc, Nat.add_comm 1 index] at later
  rewrites := by
    refine (rewrites.mono ?_).trans (rest.rewrites.mono ?_)
    · rintro number rfl
      exact Nat.le_refl _
    · intro number above
      omega

/-- Finishing shards in order leaves all that they have taken in their files, with the footer behind
it, and changes no other file. -/
theorem forShards_finish (metadata : Metadata)
    (all : AllOpen config base start text disk first shards) :
    ∃ files closed behind,
      forShards (·.finish metadata) shards disk = (.ok files, closed, behind) ∧
      (∀ shard ∈ closed, shard.buffer = none) ∧
      Stands base start (fun index => text index ++ (config.footerPieces metadata).flatten) disk
        first shards.length behind := by
  induction shards generalizing first disk with
  | nil => exact ⟨[], [], disk, rfl, by simp, .nil _ disk⟩
  | cons shard rest ih =>
      obtain ⟨own, others⟩ := each_cons.1 all
      obtain ⟨file, closed, middle, done, emptied, found, rewrites⟩ := own.finish metadata
      obtain ⟨files, last, behind, rest_done, all_emptied, stand⟩ :=
        ih (AllOpen.of_rewrites others rewrites)
      refine ⟨file :: files, closed :: last, behind, ?_, ?_, .cons own.stands rewrites found stand⟩
      · rw [forShards_ok done, rest_done]
        rfl
      · intro other member
        rcases List.mem_cons.1 member with rfl | later
        · exact emptied
        · exact all_emptied other later

theorem foldl_release_of_emptied (emptied : ∀ shard ∈ shards, shard.buffer = none) (disk : Disk) :
    shards.foldl (fun world shard => (shard.release world).2) disk = disk := by
  induction shards with
  | nil => rfl
  | cons shard rest ih =>
      have own : shard.release disk = (shard, disk) := by
        rw [Shard.release, emptied shard List.mem_cons_self]
      rw [List.foldl_cons, own]
      exact ih fun other member => emptied other (List.mem_cons_of_mem _ member)

/-- Letting go of shards in order leaves what each has taken in its file, and changes no other. -/
theorem stands_foldl_release (all : AllOpen config base start text disk first shards) :
    Stands base start text disk first shards.length
      (shards.foldl (fun world shard => (shard.release world).2) disk) := by
  induction shards generalizing first disk with
  | nil => exact .nil text disk
  | cons shard rest ih =>
      obtain ⟨own, others⟩ := each_cons.1 all
      obtain ⟨found, rewrites⟩ := own.release
      exact .cons own.stands rewrites found (ih (AllOpen.of_rewrites others rewrites))

/-- No shard's file holds more than its header. -/
def Bare (config : ArchiveConfig) (base : String) (metadata : Metadata) (disk : Disk) : Prop :=
  ∀ index < config.shards, ∀ octets,
    disk.read (Path.ofText (shardPath base index)) = .ok octets →
      octets = (config.headerPieces metadata).flatten

theorem Vacant.bare (vacant : Vacant base disk 0 config.shards) (metadata : Metadata) :
    Bare config base metadata disk := by
  intro index below octets found
  obtain ⟨-, number, stands, -⟩ := Disk.read_iff.1 found
  exact absurd stands (vacant index (Nat.zero_le _) (by omega) number)

/-- Shards that have just been begun leave no more than headers when they are let go. -/
theorem Begun.bare {metadata : Metadata} {opened rest : List (Shard Disk OpenFile)} {behind : Disk}
    (begun : Begun config base start (config.headerPieces metadata).flatten disk 0 opened rest behind)
    (vacant : Vacant base disk 0 config.shards) :
    Bare config base metadata
      ((opened ++ rest).foldl (fun world shard => (shard.release world).2) behind) := by
  rw [List.foldl_append, foldl_release_of_emptied begun.emptied]
  obtain ⟨headers, rewrites⟩ := stands_foldl_release begun.all
  intro index below octets found
  by_cases inner : index < opened.length
  · have own := headers index inner
    rw [Nat.zero_add] at own
    cases own.symm.trans found
    rfl
  · obtain ⟨-, number, stands, -⟩ := Disk.read_iff.1 found
    rw [rewrites.entries, begun.places index (by omega)] at stands
    exact absurd stands (vacant index (Nat.zero_le _) (by omega) number)

/-! ### Writers -/

/-- All shards of an archive are open, in files with numbers from `start` on, and each has taken its
text. -/
structure Holds (config : ArchiveConfig) (base : String) (start : Nat) (text : Nat → Bytes)
    (disk : Disk) (writer : ArchiveWriter Disk OpenFile) : Prop where
  /-- There are as many shards as configured. -/
  count : writer.shards.length = config.shards
  /-- Each is open. -/
  all : AllOpen config base start text disk 0 writer.shards

theorem grows_ensureParent (path : Path) (disk : Disk) : disk.Grows (ensureParent path disk).2 := by
  rw [ensureParent]
  split
  next => exact .refl disk
  next parent _ =>
    split
    next => exact .refl disk
    next => exact Disk.grows_makeDirectories disk parent

theorem grows_ofPath (config : ArchiveConfig) (base : String) (disk : Disk) :
    disk.Grows (ofPath base config disk).2 := by
  have grown := grows_ensureParent (Path.ofText base) disk
  rw [ofPath]
  split
  next => exact .refl disk
  next =>
    generalize ensureParent (Path.ofText base) disk = outcome at grown
    obtain ⟨_ | _, behind⟩ := outcome <;> exact grown

/-- The file of each shard. -/
def fileOf (config : ArchiveConfig) (base : String) (index : Nat) : Outlet Disk OpenFile :=
  Disk.outlet config.append (shardPath base index)

/-- A writer over the files of shards has not used any of them. -/
theorem ofOutlets_fileOf (some_shard : 0 < config.shards) (base : String) :
    ofOutlets config (fileOf config base) = .ok ⟨unused config base 0 config.shards, 0⟩ := by
  have shards : (List.range config.shards).map (fun index =>
      Shard.ofOutlet index config (fileOf config base index)) =
        unused config base 0 config.shards := by
    rw [List.range_eq_range']
    rfl
  have some_unused : (unused config base 0 config.shards).isEmpty = false := by
    rw [List.isEmpty_eq_false_iff, ← List.length_pos_iff, unused, List.length_map,
      List.length_range']
    exact some_shard
  simp only [ofOutlets, shards, ofShards, some_unused]
  rfl

/-- An archive that makes sense gets its shards, unless the device refuses. -/
theorem ofPath_spec (valid : config.check = .ok ()) (some_shard : 0 < config.shards)
    (base : String) (disk : Disk) :
    (∃ reason, (ofPath base config disk).1 = .error (.device reason)) ∨
      ∃ behind, ofPath base config disk =
          (.ok ⟨unused config base 0 config.shards, 0⟩, behind) ∧
        disk.Grows behind := by
  have grown := grows_ensureParent (Path.ofText base) disk
  rw [ofPath]
  rw [valid]
  dsimp only
  cases parents : ensureParent (Path.ofText base) disk with
  | mk result behind =>
      rw [parents] at grown
      cases result with
      | error reason => exact .inl ⟨reason, rfl⟩
      | ok =>
          refine .inr ⟨behind, ?_, grown⟩
          rw [← ofOutlets_fileOf some_shard base]
          rfl

/-- Beginning an archive works, or the device refuses and no shard gets more than a header. -/
theorem begin_unused (metadata : Metadata) (tiles : Nat)
    (vacant : config.append = true → Vacant base disk 0 config.shards) :
    (∃ reason begun behind,
        (⟨unused config base 0 config.shards, tiles⟩ : ArchiveWriter Disk OpenFile).begin
          metadata disk = (.error (.device reason), begun, behind) ∧
        (Vacant base disk 0 config.shards → Bare config base metadata (begun.release behind))) ∨
      ∃ opened behind,
        (⟨unused config base 0 config.shards, tiles⟩ : ArchiveWriter Disk OpenFile).begin
          metadata disk = (.ok (), opened, behind) ∧
        opened.Holds config base disk.files.length
          (fun _ => (config.headerPieces metadata).flatten) behind := by
  obtain ⟨result, opened, rest, behind, done, begun, ends⟩ :=
    forShards_begin metadata (Nat.add_zero disk.files.length).symm vacant
  rcases ends with ⟨reason, rfl⟩ | ⟨⟨values, rfl⟩, rfl, size⟩
  · left
    refine ⟨reason, ⟨opened ++ rest, tiles⟩, behind, ?_, begun.bare⟩
    simp only [begin, done]
    rfl
  · right
    rw [List.append_nil] at done
    refine ⟨⟨opened, tiles⟩, behind, ?_, size, begun.all⟩
    simp only [begin, done]
    rfl

/-- A tile goes behind what its shard has taken. -/
theorem Holds.write (holds : writer.Holds config base start text disk) (some_shard : 0 < config.shards)
    (tile : Tile) (data : Option Bytes) :
    ∃ next behind, writer.write tile data disk = (.ok (), next, behind) ∧
      next.Holds config base start (fun index => text index ++
        if shardOf tile.id config.shards = index then (config.tilePieces tile data).flatten
        else []) behind := by
  obtain ⟨index, routed⟩ : ∃ index, shardOf tile.id config.shards = index := ⟨_, rfl⟩
  have below : index < writer.shards.length := by
    rw [holds.count, ← routed]
    exact shardOf_lt some_shard
  have found : writer.shards[index]? = some writer.shards[index] := List.getElem?_eq_getElem below
  obtain ⟨next, behind, done, own, rewrites⟩ := (holds.all index _ found).write tile data
  refine ⟨⟨writer.shards.set index next, writer.tilesWritten + 1⟩, behind, ?_, ?_, ?_⟩
  · simp only [ArchiveWriter.write, holds.count, routed, found, done]
  · rw [List.length_set, holds.count]
  · intro other shard member
    rw [routed]
    rw [List.getElem?_set] at member
    by_cases same : index = other
    · subst same
      rw [if_pos rfl, if_pos below] at member
      cases member
      rw [Nat.zero_add] at own ⊢
      simpa only [if_true] using own
    · rw [if_neg same] at member
      have still := (holds.all other shard member).of_rewrites rewrites (by omega)
      rw [Nat.zero_add] at still ⊢
      simpa only [if_neg same, List.append_nil] using still

/-- Finishing an archive leaves what every shard has taken in its file, with the footer behind it. -/
theorem Holds.finish (holds : writer.Holds config base start text disk) (metadata : Metadata) :
    ∃ files closed behind, writer.finish metadata disk = (.ok files, closed, behind) ∧
      (∀ world, closed.release world = world) ∧
      ∀ index < config.shards, behind.read (Path.ofText (shardPath base index)) =
        .ok (text index ++ (config.footerPieces metadata).flatten) := by
  obtain ⟨files, closed, behind, done, emptied, found, -⟩ := forShards_finish metadata holds.all
  refine ⟨files, ⟨closed, writer.tilesWritten⟩, behind, ?_, ?_, ?_⟩
  · rw [ArchiveWriter.finish, done]
  · intro world
    exact foldl_release_of_emptied emptied world
  · intro index below
    have last := found index (holds.count ▸ below)
    rwa [Nat.zero_add] at last

/-- Letting go of an archive that is not finished leaves what every shard has taken in its file. -/
theorem Holds.release (holds : writer.Holds config base start text disk) :
    ∀ index < config.shards,
      (writer.release disk).read (Path.ofText (shardPath base index)) = .ok (text index) := by
  intro index below
  have found := (stands_foldl_release holds.all).read index (holds.count ▸ below)
  rwa [Nat.zero_add] at found

end ArchiveWriter
end TileBindery
