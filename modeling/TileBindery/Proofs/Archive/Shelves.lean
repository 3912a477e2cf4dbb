import TileBindery.Archive.Shard
import TileBindery.Proofs.Archive.ShardPaths
import TileBindery.Proofs.Disk.Separate

/-!
# Destinations side by side

Where the shards of an archive go does not matter to them: files of a disk, destinations in memory
and anything else that keeps what has been handed over, apart from what all others hold, are alike.
The main statements say that a shard which reports no failure has handed over all that it has taken,
in order and behind what its destination held before.
-/

namespace TileBindery

/-- Destinations side by side in a world.  Handing octets over to one puts them behind what it holds
and leaves all others alone. -/
structure Shelf (σ η : Type) where
  outlet : Nat → Outlet σ η
  /-- Worlds in which no two destinations share anything. -/
  Sound : σ → Prop
  /-- What a destination holds. -/
  held : Nat → σ → Bytes
  /-- A destination is open, and this is what it is held by. -/
  Owns : Nat → η → σ → Prop
  sound_acquire {index : Nat} {world after : σ} {handle : η} (sound : Sound world)
    (acquired : (outlet index).acquire world = (.ok handle, after)) : Sound after
  owns_acquire {index : Nat} {world after : σ} {handle : η} (sound : Sound world)
    (acquired : (outlet index).acquire world = (.ok handle, after)) : Owns index handle after
  /-- Opening a destination changes nothing that is held. -/
  held_acquire {index : Nat} {world after : σ} {handle : η} (sound : Sound world)
    (acquired : (outlet index).acquire world = (.ok handle, after)) (other : Nat) :
    held other after = held other world
  others_acquire {index : Nat} {world after : σ} {handle : η} (sound : Sound world)
    (acquired : (outlet index).acquire world = (.ok handle, after)) {other : Nat}
    (apart : other ≠ index) {owner : η} (owns : Owns other owner world) : Owns other owner after
  sound_push {index : Nat} {world after : σ} {handle next : η} {octets : Bytes}
    (sound : Sound world) (owns : Owns index handle world)
    (pushed : (outlet index).push handle octets world = (.ok next, after)) : Sound after
  owns_push {index : Nat} {world after : σ} {handle next : η} {octets : Bytes}
    (sound : Sound world) (owns : Owns index handle world)
    (pushed : (outlet index).push handle octets world = (.ok next, after)) : Owns index next after
  /-- Octets go behind what the destination holds. -/
  held_push {index : Nat} {world after : σ} {handle next : η} {octets : Bytes}
    (sound : Sound world) (owns : Owns index handle world)
    (pushed : (outlet index).push handle octets world = (.ok next, after)) (other : Nat) :
    held other after = if other = index then held index world ++ octets else held other world
  others_push {index : Nat} {world after : σ} {handle next : η} {octets : Bytes}
    (sound : Sound world) (owns : Owns index handle world)
    (pushed : (outlet index).push handle octets world = (.ok next, after)) {other : Nat}
    (apart : other ≠ index) {owner : η} (owned : Owns other owner world) : Owns other owner after

namespace Shelf

variable {σ η : Type}

/-- A world `after` nothing but one destination has been used. -/
structure Keeps (shelf : Shelf σ η) (index : Nat) (world after : σ) : Prop where
  /-- No two destinations share anything. -/
  sound : shelf.Sound after
  /-- The others hold what they held. -/
  held : ∀ other, other ≠ index → shelf.held other after = shelf.held other world
  /-- They stay open. -/
  owns : ∀ other, other ≠ index → ∀ owner, shelf.Owns other owner world →
    shelf.Owns other owner after

namespace Keeps

variable {shelf : Shelf σ η} {index : Nat} {world middle after : σ}

theorem refl (sound : shelf.Sound world) : shelf.Keeps index world world :=
  ⟨sound, fun _ _ => rfl, fun _ _ _ => id⟩

theorem trans (first : shelf.Keeps index world middle) (second : shelf.Keeps index middle after) :
    shelf.Keeps index world after where
  sound := second.sound
  held other apart := (second.held other apart).trans (first.held other apart)
  owns other apart owner := second.owns other apart owner ∘ first.owns other apart owner

theorem of_acquire {handle : η} (sound : shelf.Sound world)
    (acquired : (shelf.outlet index).acquire world = (.ok handle, after)) :
    shelf.Keeps index world after where
  sound := shelf.sound_acquire sound acquired
  held other _ := shelf.held_acquire sound acquired other
  owns _ apart _ := shelf.others_acquire sound acquired apart

theorem of_push {handle next : η} {octets : Bytes} (sound : shelf.Sound world)
    (owns : shelf.Owns index handle world)
    (pushed : (shelf.outlet index).push handle octets world = (.ok next, after)) :
    shelf.Keeps index world after where
  sound := shelf.sound_push sound owns pushed
  held other apart := by rw [shelf.held_push sound owns pushed, if_neg apart]
  owns _ apart _ := shelf.others_push sound owns pushed apart

end Keeps
end Shelf

/-! ### Buffers -/

namespace WriteBuffer

variable {σ η : Type} {shelf : Shelf σ η} {index : Nat} {world after : σ}
  {buffer next : WriteBuffer η} {octets piece : Bytes}

/-- A destination of a shelf is open, and what it holds and what waits in front of it make up
`octets`. -/
structure Carries (shelf : Shelf σ η) (index : Nat) (octets : Bytes) (world : σ)
    (buffer : WriteBuffer η) : Prop where
  /-- The destination is open. -/
  owns : shelf.Owns index buffer.handle world
  /-- Nothing is lost. -/
  whole : shelf.held index world ++ buffer.pending = octets

theorem Carries.of_keeps {other : Nat} (carries : buffer.Carries shelf index octets world)
    (keeps : shelf.Keeps other world after) (apart : index ≠ other) :
    buffer.Carries shelf index octets after where
  owns := keeps.owns index apart _ carries.owns
  whole := by rw [keeps.held index apart, carries.whole]

theorem Carries.push {handle : η} (carries : buffer.Carries shelf index octets world)
    (sound : shelf.Sound world)
    (pushed : (shelf.outlet index).push buffer.handle piece world = (.ok handle, after))
    (empty : buffer.pending = []) :
    Carries shelf index (octets ++ piece) after { buffer with handle } ∧
      shelf.Keeps index world after := by
  have whole := carries.whole
  rw [empty, List.append_nil] at whole
  refine ⟨⟨shelf.owns_push sound carries.owns pushed, ?_⟩, .of_push sound carries.owns pushed⟩
  rw [empty, List.append_nil, shelf.held_push sound carries.owns pushed, if_pos rfl, whole]

theorem Carries.flush (carries : buffer.Carries shelf index octets world)
    (sound : shelf.Sound world)
    (flushed : buffer.flush (shelf.outlet index) world = (.ok (), next, after)) :
    next.Carries shelf index octets after ∧ next.pending = [] ∧ shelf.Keeps index world after := by
  rw [WriteBuffer.flush] at flushed
  split at flushed
  next empty =>
    cases flushed
    exact ⟨carries, List.isEmpty_iff.1 empty, .refl sound⟩
  next =>
    split at flushed
    next handle behind pushed =>
      cases flushed
      refine ⟨⟨shelf.owns_push sound carries.owns pushed, ?_⟩, rfl,
        .of_push sound carries.owns pushed⟩
      rw [List.append_nil, shelf.held_push sound carries.owns pushed, if_pos rfl, carries.whole]
    next => simp at flushed

theorem Carries.overflow {capacity : Nat} (carries : buffer.Carries shelf index octets world)
    (sound : shelf.Sound world) (fits : piece.length < capacity ∨ buffer.pending = [])
    (taken : buffer.overflow (shelf.outlet index) capacity piece world = (.ok (), next, after)) :
    next.Carries shelf index (octets ++ piece) after ∧ shelf.Keeps index world after := by
  rw [WriteBuffer.overflow] at taken
  split at taken
  next =>
    cases taken
    refine ⟨⟨carries.owns, ?_⟩, .refl sound⟩
    rw [← carries.whole, List.append_assoc]
  next large =>
    split at taken
    next pushed =>
      cases taken
      exact carries.push sound pushed (fits.resolve_left large)
    next => simp at taken

theorem Carries.write {capacity : Nat} (carries : buffer.Carries shelf index octets world)
    (sound : shelf.Sound world) (some_room : 0 < capacity)
    (taken : buffer.write (shelf.outlet index) capacity piece world = (.ok (), next, after)) :
    next.Carries shelf index (octets ++ piece) after ∧ shelf.Keeps index world after := by
  unfold WriteBuffer.write at taken
  dsimp only at taken
  split at taken
  next =>
    cases taken
    refine ⟨⟨carries.owns, ?_⟩, .refl sound⟩
    rw [← carries.whole, List.append_assoc]
  next =>
    split at taken
    next exact_fit =>
      refine carries.overflow sound ?_ taken
      rw [← List.length_eq_zero_iff]
      omega
    next =>
      split at taken
      next flushed =>
        obtain ⟨still, empty, first⟩ := carries.flush sound flushed
        obtain ⟨last, second⟩ := still.overflow first.sound (.inr empty) taken
        exact ⟨last, first.trans second⟩
      next => simp at taken

theorem Carries.writeAll {capacity : Nat} {pieces : List Bytes}
    (carries : buffer.Carries shelf index octets world) (sound : shelf.Sound world)
    (some_room : 0 < capacity)
    (taken : buffer.writeAll (shelf.outlet index) capacity pieces world = (.ok (), next, after)) :
    next.Carries shelf index (octets ++ pieces.flatten) after ∧ shelf.Keeps index world after := by
  induction pieces generalizing buffer octets world with
  | nil =>
      cases taken
      rw [List.flatten_nil, List.append_nil]
      exact ⟨carries, .refl sound⟩
  | cons piece rest ih =>
      rw [WriteBuffer.writeAll] at taken
      split at taken
      next first_taken =>
        obtain ⟨still, first⟩ := carries.write sound some_room first_taken
        obtain ⟨last, second⟩ := ih still first.sound taken
        rw [List.append_assoc] at last
        exact ⟨last, first.trans second⟩
      next => simp at taken

end WriteBuffer

/-! ### Shards -/

namespace Shard

variable {σ η : Type} {shelf : Shelf σ η} {index count : Nat} {config : ArchiveConfig}
  {world after : σ} {shard next : Shard σ η} {octets : Bytes} {metadata : Metadata}

/-- A shard that has not been used, in front of a destination that holds `octets`. -/
structure Idle (shelf : Shelf σ η) (index : Nat) (config : ArchiveConfig) (octets : Bytes)
    (world : σ) (shard : Shard σ η) : Prop where
  /-- Its number appears in messages only. -/
  fresh : ∃ number, shard = .ofOutlet number config (shelf.outlet index)
  /-- Nothing has been handed over. -/
  held : shelf.held index world = octets

/-- A shard is open and has taken `count` tiles: its destination and its buffer make up `octets`. -/
structure Carries (shelf : Shelf σ η) (index : Nat) (config : ArchiveConfig) (octets : Bytes)
    (count : Nat) (world : σ) (shard : Shard σ η) : Prop where
  /-- Tiles are accepted. -/
  state : shard.state = .accepting
  /-- Entries are written as configured. -/
  config : shard.config = config
  /-- They go to this destination. -/
  outlet : shard.outlet = shelf.outlet index
  /-- Nothing is lost on the way. -/
  buffer : ∃ buffer, shard.buffer = some buffer ∧ buffer.Carries shelf index octets world
  /-- All tiles are counted. -/
  count : shard.tilesWritten = count

/-- A shard that has been finished with `count` tiles in it: its destination holds `octets`. -/
structure Complete (shelf : Shelf σ η) (index : Nat) (octets : Bytes) (count : Nat) (world : σ)
    (shard : Shard σ η) : Prop where
  /-- What held the destination has been given back. -/
  owns : ∃ owner, shelf.Owns index owner world
  /-- Everything has been handed over. -/
  held : shelf.held index world = octets
  /-- All tiles are counted. -/
  count : shard.tilesWritten = count

theorem Idle.of_keeps {other : Nat} (idle : shard.Idle shelf index config octets world)
    (keeps : shelf.Keeps other world after) (apart : index ≠ other) :
    shard.Idle shelf index config octets after :=
  ⟨idle.fresh, (keeps.held index apart).trans idle.held⟩

theorem Carries.of_keeps {other : Nat}
    (carries : shard.Carries shelf index config octets count world)
    (keeps : shelf.Keeps other world after) (apart : index ≠ other) :
    shard.Carries shelf index config octets count after := by
  obtain ⟨buffer, own, inner⟩ := carries.buffer
  exact { carries with buffer := ⟨buffer, own, inner.of_keeps keeps apart⟩ }

theorem Complete.of_keeps {other : Nat} (complete : shard.Complete shelf index octets count world)
    (keeps : shelf.Keeps other world after) (apart : index ≠ other) :
    shard.Complete shelf index octets count after := by
  obtain ⟨owner, owns⟩ := complete.owns
  exact ⟨⟨owner, keeps.owns index apart owner owns⟩,
    (keeps.held index apart).trans complete.held, complete.count⟩

theorem Carries.put {pieces : List Bytes}
    (carries : shard.Carries shelf index config octets count world) (sound : shelf.Sound world)
    (done : shard.put pieces world = (.ok (), next, after)) :
    next.Carries shelf index config (octets ++ pieces.flatten) count after ∧
      shelf.Keeps index world after := by
  obtain ⟨buffer, own, inner⟩ := carries.buffer
  rw [Shard.put, own, carries.outlet] at done
  dsimp only at done
  cases taken : buffer.writeAll (shelf.outlet index) capacity pieces world with
  | mk result rest =>
      obtain ⟨filled, behind⟩ := rest
      rw [taken] at done
      cases result with
      | error reason => cases done
      | ok =>
          cases done
          obtain ⟨last, keeps⟩ := inner.writeAll sound (show 0 < capacity by decide) taken
          exact ⟨{ carries with outlet := rfl, buffer := ⟨filled, rfl, last⟩ }, keeps⟩

theorem Idle.acquire (idle : shard.Idle shelf index config octets world)
    (sound : shelf.Sound world) (acquired : shard.acquire world = (.ok (), next, after)) :
    next.Carries shelf index config octets 0 after ∧ shelf.Keeps index world after := by
  obtain ⟨number, rfl⟩ := idle.fresh
  rw [Shard.acquire] at acquired
  split at acquired
  next => simp at acquired
  next =>
    split at acquired
    next => simp at acquired
    next handle behind opened =>
      cases acquired
      refine ⟨⟨rfl, rfl, rfl, ⟨_, rfl, shelf.owns_acquire sound opened, ?_⟩, rfl⟩,
        .of_acquire sound opened⟩
      rw [shelf.held_acquire sound opened, idle.held]
      exact List.append_nil _

theorem Idle.begin (idle : shard.Idle shelf index config octets world) (sound : shelf.Sound world)
    (done : shard.begin metadata world = (.ok (), next, after)) :
    next.Carries shelf index config (octets ++ (config.headerPieces metadata).flatten) 0 after ∧
      shelf.Keeps index world after := by
  rw [Shard.begin] at done
  split at done
  next => simp at done
  next =>
    split at done
    next => simp at done
    next opened behind acquired =>
      obtain ⟨carries, keeps⟩ := idle.acquire sound acquired
      rw [carries.config] at done
      obtain ⟨last, behind_keeps⟩ := carries.put keeps.sound done
      exact ⟨last, keeps.trans behind_keeps⟩

theorem Carries.write {tile : Tile} {data : Option Bytes}
    (carries : shard.Carries shelf index config octets count world) (sound : shelf.Sound world)
    (done : shard.write tile data world = (.ok (), next, after)) :
    next.Carries shelf index config (octets ++ (config.tilePieces tile data).flatten) (count + 1)
        after ∧ shelf.Keeps index world after := by
  rw [Shard.write, ensureOpen, carries.state] at done
  dsimp only at done
  rw [carries.config] at done
  split at done
  next => simp at done
  next filled behind put =>
    cases done
    obtain ⟨last, keeps⟩ := carries.put sound put
    exact ⟨{ last with count := congrArg (· + 1) last.count }, keeps⟩

theorem Carries.finish {handle : η}
    (carries : shard.Carries shelf index config octets count world) (sound : shelf.Sound world)
    (done : shard.finish metadata world = (.ok handle, next, after)) :
    next.Complete shelf index (octets ++ (config.footerPieces metadata).flatten) count after ∧
      shelf.Keeps index world after := by
  rw [Shard.finish, ensureOpen, carries.state] at done
  dsimp only at done
  rw [carries.config] at done
  split at done
  next => simp at done
  next filled behind put =>
    obtain ⟨last, keeps⟩ := carries.put sound put
    obtain ⟨buffer, own, inner⟩ := last.buffer
    rw [own, last.outlet] at done
    dsimp only at done
    split at done
    next flushed =>
      cases done
      obtain ⟨emptied, empty, behind_keeps⟩ := inner.flush keeps.sound flushed
      have whole := emptied.whole
      rw [empty, List.append_nil] at whole
      exact ⟨⟨⟨_, emptied.owns⟩, whole, last.count⟩, keeps.trans behind_keeps⟩
    next => simp at done

end Shard

/-! ### Files as destinations -/

namespace Disk

/-- What the file at a location holds, if one stands there. -/
def holding (disk : Disk) (location : Location) : Bytes :=
  match disk.lookup location with
  | some (.file number) => disk.contents number
  | _ => []

theorem holding_of_file {disk : Disk} {location : Location} {number : Nat}
    (stands : disk.lookup location = some (.file number)) :
    disk.holding location = disk.contents number := by
  rw [holding, stands]

theorem holding_congr {disk after : Disk} {location : Location}
    (entries : after.lookup location = disk.lookup location)
    (contents : ∀ number, disk.lookup location = some (.file number) →
      after.contents number = disk.contents number) :
    after.holding location = disk.holding location := by
  rw [holding, holding, entries]
  split
  next number stands => exact contents number stands
  next => rfl

theorem Grows.holding {disk after : Disk} (grows : disk.Grows after) (location : Location) :
    after.holding location = disk.holding location := by
  rw [Disk.holding, Disk.holding]
  rcases grows.entries location with same | ⟨vacant, new⟩
  · rw [same]
    simp only [contents, grows.files]
  · rw [vacant, new]

/-- The file of a path is open and is written on at its end. -/
structure Owns (disk : Disk) (path : Path) (file : OpenFile) : Prop where
  /-- The path leads to its place. -/
  reaches : disk.Reaches path
  /-- The file stands there. -/
  stands : disk.lookup path.location = some (.file file.number)
  /-- The next octet goes behind the last. -/
  position : ∀ position ∈ file.position, position = (disk.contents file.number).length

/-- Opening a file for writing at its end finds one or creates one. -/
theorem acquire_ok {append : Bool} {path : String} {disk after : Disk} {file : OpenFile}
    (acquired : (outlet append path).acquire disk = (.ok file, after)) :
    (after = disk ∧ disk.Owns (Path.ofText path) file) ∨
      disk.lookup (Path.ofText path).location = none ∧ file.number = disk.files.length ∧
        disk.Stored (Path.ofText path) [] after ∧ after.Owns (Path.ofText path) file := by
  have new {position : Option Nat} (reaches : disk.Reaches (Path.ofText path))
      (vacant : disk.lookup (Path.ofText path).location = none)
      (start : ∀ first ∈ position, first = 0) :
      disk.Stored (Path.ofText path) [] (disk.addFile (Path.ofText path).location []) ∧
        (disk.addFile (Path.ofText path).location []).Owns (Path.ofText path)
          ⟨disk.files.length, position⟩ := by
    have stored := stored_addFile [] reaches vacant
    refine ⟨stored, stored.reaches_after, stored.stands, fun first own => ?_⟩
    rw [stored.contents_new, start first own]
    rfl
  cases append with
  | false =>
      simp only [outlet, Bool.false_eq_true, if_false] at acquired
      cases created : disk.createFile (Path.ofText path) with
      | error reason => simp [created] at acquired
      | ok opened =>
          obtain ⟨file, behind⟩ := opened
          obtain ⟨reaches, vacant, rfl, rfl⟩ := createFile_iff.1 created
          simp only [created, Prod.mk.injEq, Except.ok.injEq] at acquired
          obtain ⟨rfl, rfl⟩ := acquired
          exact .inr ⟨vacant, rfl, new reaches vacant (by simp)⟩
  | true =>
      simp only [outlet, if_true] at acquired
      cases found : disk.appendFile (Path.ofText path) with
      | error reason => simp [found] at acquired
      | ok opened =>
          obtain ⟨file, behind⟩ := opened
          simp only [found, Prod.mk.injEq, Except.ok.injEq] at acquired
          obtain ⟨rfl, rfl⟩ := acquired
          obtain ⟨reaches, ⟨number, stands, rfl, rfl⟩ | ⟨vacant, rfl, rfl⟩⟩ := appendFile_ok found
          · exact .inl ⟨rfl, reaches, stands, by simp⟩
          · exact .inr ⟨vacant, rfl, new reaches vacant (by simp)⟩

variable {disk after : Disk} {path : Path} {file : OpenFile}

theorem Owns.of_stored {other : Path} {octets : Bytes} (owns : disk.Owns path file)
    (separate : disk.Separate) (stored : disk.Stored other octets after)
    (apart : path.location ≠ other.location) : after.Owns path file where
  reaches := owns.reaches.of_keeps fun location _ => stored.keeps location
  stands := by rw [stored.entries _ owns.reaches.location_ne_nil, if_neg apart, owns.stands]
  position first own := by
    rw [stored.contents_old _ (separate.real _ _ owns.stands)]
    exact owns.position first own

theorem Owns.of_rewrites {written : Nat → Prop} (owns : disk.Owns path file)
    (rewrites : disk.Rewrites written after) (apart : ¬written file.number) :
    after.Owns path file where
  reaches := rewrites.reaches owns.reaches
  stands := (rewrites.entries _).trans owns.stands
  position first own := by
    rw [rewrites.contents _ apart]
    exact owns.position first own

/-- What is written goes behind what the file holds. -/
theorem Owns.write (owns : disk.Owns path file) (separate : disk.Separate) (octets : Bytes) :
    (disk.write file octets).2.Owns path (disk.write file octets).1 ∧
      (disk.write file octets).2.contents file.number = disk.contents file.number ++ octets := by
  have ends : disk.Ends file (disk.contents file.number) :=
    ⟨separate.real _ _ owns.stands, rfl, owns.position⟩
  have written := ends.write octets
  have rewrites := rewrites_write disk file octets
  have number := number_write disk file octets
  refine ⟨⟨rewrites.reaches owns.reaches, ?_, fun first own => ?_⟩, ?_⟩
  · rw [rewrites.entries, owns.stands, number]
  · rw [written.contents]
    exact written.position first own
  · have contents := written.contents
    rwa [number] at contents

theorem push_ok {append : Bool} {path : String} {disk after : Disk} {file next : OpenFile}
    {octets : Bytes} (pushed : (outlet append path).push file octets disk = (.ok next, after)) :
    next = (disk.write file octets).1 ∧ after = (disk.write file octets).2 := by
  cases pushed
  exact ⟨rfl, rfl⟩

/-- Files at different places, created or opened for appending. -/
def shelf (append : Bool) (path : Nat → String)
    (apart : ∀ {a b : Nat}, (Path.ofText (path a)).location = (Path.ofText (path b)).location →
      a = b) : Shelf Disk OpenFile where
  outlet index := outlet append (path index)
  Sound := Separate
  held index disk := disk.holding (Path.ofText (path index)).location
  Owns index file disk := disk.Owns (Path.ofText (path index)) file
  sound_acquire separate acquired := by
    rcases acquire_ok acquired with ⟨rfl, -⟩ | ⟨-, -, stored, -⟩
    · exact separate
    · exact separate.of_stored stored
  owns_acquire _ acquired := by
    rcases acquire_ok acquired with ⟨rfl, owns⟩ | ⟨-, -, -, owns⟩
    · exact owns
    · exact owns
  held_acquire {index disk after file} separate acquired other := by
    rcases acquire_ok acquired with ⟨rfl, -⟩ | ⟨vacant, -, stored, -⟩
    · rfl
    · by_cases same : other = index
      · subst same
        rw [holding_of_file stored.stands, stored.contents_new, holding, vacant]
      · refine holding_congr ?_ fun number stands =>
          stored.contents_old number (separate.real _ number stands)
        by_cases root : (Path.ofText (path other)).location = []
        · rw [root, lookup_nil, lookup_nil]
        · rw [stored.entries _ root, if_neg (mt apart same)]
  others_acquire separate acquired other different owner owns := by
    rcases acquire_ok acquired with ⟨rfl, -⟩ | ⟨-, -, stored, -⟩
    · exact owns
    · exact owns.of_stored separate stored (mt apart different)
  sound_push {index disk after file next octets} separate _ pushed := by
    obtain ⟨rfl, rfl⟩ := push_ok pushed
    exact separate.of_rewrites (rewrites_write disk file octets)
  owns_push {index disk after file next octets} separate owns pushed := by
    obtain ⟨rfl, rfl⟩ := push_ok pushed
    exact (owns.write separate octets).1
  held_push {index disk after file next octets} separate owns pushed other := by
    obtain ⟨rfl, rfl⟩ := push_ok pushed
    have rewrites := rewrites_write disk file octets
    by_cases same : other = index
    · subst same
      rw [if_pos rfl, holding_of_file ((rewrites.entries _).trans owns.stands),
        (owns.write separate octets).2, holding_of_file owns.stands]
    · rw [if_neg same]
      refine holding_congr (rewrites.entries _) fun number stands => ?_
      refine rewrites.contents number fun own => same (apart ?_)
      exact separate.single _ _ number stands (own ▸ owns.stands)
  others_push {index disk after file next octets} separate owns pushed other different owner
      owned := by
    obtain ⟨rfl, rfl⟩ := push_ok pushed
    refine owned.of_rewrites (rewrites_write disk file octets) fun own => different (apart ?_)
    exact separate.single _ _ _ owned.stands (own ▸ owns.stands)

@[simp]
theorem held_shelf {append : Bool} {path : Nat → String}
    {apart : ∀ {a b : Nat}, (Path.ofText (path a)).location = (Path.ofText (path b)).location →
      a = b} (index : Nat) (disk : Disk) :
    (shelf append path apart).held index disk =
      disk.holding (Path.ofText (path index)).location := rfl

end Disk

/-! ### Destinations in memory -/

namespace MemoryFile

theorem octets_of_push {file after : MemoryFile} {octets : Bytes}
    (pushed : file.push octets = .ok after) : after.octets = file.octets ++ octets := by
  rw [push] at pushed
  split at pushed
  · cases pushed
    rfl
  · split at pushed
    · simp at pushed
    · cases pushed
      rfl

theorem acquire_ok {index handle : Nat} {files after : List MemoryFile}
    (acquired : (outlet index).acquire files = (.ok handle, after)) :
    handle = index ∧ after = files ∧ index < files.length := by
  simp only [outlet] at acquired
  split at acquired
  next file found =>
    split at acquired
    · simp at acquired
    · cases acquired
      exact ⟨rfl, rfl, (List.getElem?_eq_some_iff.1 found).1⟩
  next => simp at acquired

theorem push_ok {index handle next : Nat} {files after : List MemoryFile} {octets : Bytes}
    (pushed : (outlet index).push handle octets files = (.ok next, after)) :
    ∃ file filled, files[handle]? = some file ∧ file.push octets = .ok filled ∧ next = handle ∧
      after = files.set handle filled := by
  simp only [outlet] at pushed
  split at pushed
  next file found =>
    split at pushed
    next filled taken =>
      cases pushed
      exact ⟨file, filled, found, taken, rfl, rfl⟩
    next => simp at pushed
  next => simp at pushed

/-- Destinations in memory, each under its number. -/
def shelf : Shelf (List MemoryFile) Nat where
  outlet := outlet
  Sound _ := True
  held index files := files[index]?.elim [] MemoryFile.octets
  Owns index handle files := handle = index ∧ index < files.length
  sound_acquire _ _ := trivial
  owns_acquire _ acquired := by
    obtain ⟨rfl, rfl, below⟩ := acquire_ok acquired
    exact ⟨rfl, below⟩
  held_acquire _ acquired other := by
    obtain ⟨-, rfl, -⟩ := acquire_ok acquired
    rfl
  others_acquire _ acquired other _ owner owns := by
    obtain ⟨-, rfl, -⟩ := acquire_ok acquired
    exact owns
  sound_push _ _ _ := trivial
  owns_push _ owns pushed := by
    obtain ⟨file, filled, -, -, rfl, rfl⟩ := push_ok pushed
    exact ⟨owns.1, by rw [List.length_set]; exact owns.2⟩
  held_push {index files after handle next octets} _ owns pushed other := by
    obtain ⟨rfl, below⟩ := owns
    obtain ⟨file, filled, found, taken, rfl, rfl⟩ := push_ok pushed
    rw [List.getElem?_set]
    by_cases same : other = next
    · subst same
      rw [if_pos rfl, if_pos below, if_pos rfl, found]
      exact octets_of_push taken
    · rw [if_neg (Ne.symm same), if_neg same]
  others_push _ _ pushed other _ owner owned := by
    obtain ⟨file, filled, -, -, -, rfl⟩ := push_ok pushed
    exact ⟨owned.1, by rw [List.length_set]; exact owned.2⟩

end MemoryFile
end TileBindery
