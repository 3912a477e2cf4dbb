import Mathlib.Data.List.Induction
import TileBindery.Proofs.Archive.Shelves

/-!
# Calls of a shard

The order that the calls of a stream are in, and what a single call does to a shard in front of a
destination that takes everything.
-/

namespace TileBindery

/-- A call of a shard. -/
inductive ShardCall where
  | begin (metadata : Metadata)
  | write (tile : Tile) (data : Option Bytes)
  | finish (metadata : Metadata)
  deriving DecidableEq

namespace ShardCall

/-- The octets that a call adds to a stream. -/
def octets (config : ArchiveConfig) : ShardCall → Bytes
  | .begin metadata => (config.headerPieces metadata).flatten
  | .write tile data => (config.tilePieces tile data).flatten
  | .finish metadata => (config.footerPieces metadata).flatten

/-- What calls add to a stream. -/
def stream (config : ArchiveConfig) (calls : List ShardCall) : Bytes :=
  calls.flatMap (octets config)

theorem stream_concat (config : ArchiveConfig) (calls : List ShardCall) (call : ShardCall) :
    stream config (calls ++ [call]) = stream config calls ++ call.octets config := by
  simp [stream]

def isWrite : ShardCall → Bool
  | .write .. => true
  | _ => false

/-- A header and tiles.  The header may be left out where none is required. -/
def IsFront (headed : Prop) (calls : List ShardCall) : Prop :=
  ∃ (header : List ShardCall) (tiles : List (Tile × Option Bytes)),
    ((∃ first, header = [.begin first]) ∨ ¬headed ∧ header = []) ∧
      calls = header ++ tiles.map fun entry => .write entry.1 entry.2

/-- The calls of a whole stream: a header, tiles and a footer. -/
def IsStream (headed : Prop) (calls : List ShardCall) : Prop :=
  ∃ front last, IsFront headed front ∧ calls = front ++ [.finish last]

/-- Calls that a stream may begin with. -/
def InOrder (headed : Prop) (calls : List ShardCall) : Prop :=
  ∃ stream, IsStream headed stream ∧ calls <+: stream

/-- What calls in front of a state look like. -/
def Leads (headed : Prop) (calls : List ShardCall) : ShardState → Prop
  | .unopened => calls = []
  | .accepting => IsFront headed calls
  | .closed => IsStream headed calls

variable {headed : Prop} {calls : List ShardCall}

theorem IsFront.concat_write {tile : Tile} {data : Option Bytes} (front : IsFront headed calls) :
    IsFront headed (calls ++ [.write tile data]) := by
  obtain ⟨header, tiles, form, rfl⟩ := front
  exact ⟨header, tiles ++ [(tile, data)], form, by simp⟩

variable [Decidable headed]

/-- The state behind a call that is in order. -/
def next? (headed : Prop) [Decidable headed] : ShardState → ShardCall → Option ShardState
  | .unopened, .begin _ => some .accepting
  | .unopened, .write .. => if headed then none else some .accepting
  | .unopened, .finish _ => if headed then none else some .closed
  | .accepting, .begin _ => none
  | .accepting, .write .. => some .accepting
  | .accepting, .finish _ => some .closed
  | .closed, _ => none

/-- The state behind calls that are in order. -/
def state? (headed : Prop) [Decidable headed] (calls : List ShardCall) : Option ShardState :=
  calls.foldlM (next? headed) .unopened

theorem state?_concat (headed : Prop) [Decidable headed] (calls : List ShardCall)
    (call : ShardCall) :
    state? headed (calls ++ [call]) = (state? headed calls).bind (next? headed · call) := by
  rw [state?, List.foldlM_append, ← state?]
  cases state? headed calls with
  | none => rfl
  | some state => simp

/-- Tiles are accepted behind a header, and one behind the other. -/
theorem foldlM_tiles (tiles : List (Tile × Option Bytes)) :
    (tiles.map fun entry => write entry.1 entry.2).foldlM (next? headed) .accepting =
      some .accepting := by
  induction tiles with
  | nil => rfl
  | cons entry tiles ih =>
      rw [List.map_cons, List.foldlM_cons]
      exact ih

theorem next?_write {state next : ShardState} {tile : Tile} {data : Option Bytes}
    (step : next? headed state (.write tile data) = some next) : next = .accepting := by
  cases state <;> simp_all [next?]

theorem next?_finish {state next : ShardState} {metadata : Metadata}
    (step : next? headed state (.finish metadata) = some next) : next = .closed := by
  cases state <;> simp_all [next?]

theorem state?_of_isFront (front : IsFront headed calls) :
    state? headed calls = some .accepting ∨ ¬headed ∧ calls = [] := by
  obtain ⟨header, tiles, ⟨first, rfl⟩ | ⟨free, rfl⟩, rfl⟩ := front
  · exact .inl (foldlM_tiles tiles)
  · cases tiles with
    | nil => exact .inr ⟨free, rfl⟩
    | cons entry tiles =>
        refine .inl ?_
        rw [state?, List.nil_append, List.map_cons, List.foldlM_cons, next?, if_neg free]
        exact foldlM_tiles tiles

theorem state?_of_isStream (stream : IsStream headed calls) :
    state? headed calls = some .closed := by
  obtain ⟨front, last, begun, rfl⟩ := stream
  rw [state?_concat]
  rcases state?_of_isFront begun with accepting | ⟨free, rfl⟩
  · rw [accepting]
    rfl
  · exact if_neg free

/-- The calls that lead to a state. -/
theorem leads_of_state? {state : ShardState} (reached : state? headed calls = some state) :
    Leads headed calls state := by
  -- from the last call, as the calls in front of it tell in which state it is made
  induction calls using List.reverseRecOn generalizing state with
  | nil =>
      cases reached
      rfl
  | append_singleton calls call ih =>
      rw [state?_concat] at reached
      obtain ⟨before, front, step⟩ := Option.bind_eq_some_iff.1 reached
      have start := ih front
      have free_front (free : ¬headed) : IsFront headed [] := ⟨[], [], .inr ⟨free, rfl⟩, rfl⟩
      cases before with
      | unopened =>
          obtain rfl : calls = [] := start
          cases call with
          | begin first =>
              cases step
              exact ⟨[.begin first], [], .inl ⟨first, rfl⟩, rfl⟩
          | write tile data =>
              obtain ⟨free, rfl⟩ : ¬headed ∧ .accepting = state := by simpa [next?] using step
              exact (free_front free).concat_write
          | finish last =>
              obtain ⟨free, rfl⟩ : ¬headed ∧ .closed = state := by simpa [next?] using step
              exact ⟨[], last, free_front free, rfl⟩
      | accepting =>
          cases call with
          | begin => cases step
          | write tile data =>
              cases step
              exact start.concat_write
          | finish last =>
              cases step
              exact ⟨calls, last, start, rfl⟩
      | closed => cases step

/-- Calls are in order if each is allowed in the state behind those before it. -/
theorem inOrder_iff : InOrder headed calls ↔ ∃ state, state? headed calls = some state := by
  constructor
  · rintro ⟨stream, whole, rest, rfl⟩
    have closed := state?_of_isStream whole
    rw [state?, List.foldlM_append] at closed
    obtain ⟨state, front, -⟩ := Option.bind_eq_some_iff.1 closed
    exact ⟨state, front⟩
  · rintro ⟨state, reached⟩
    have front := leads_of_state? reached
    cases state with
    | unopened =>
        obtain rfl : calls = [] := front
        exact ⟨_, ⟨_, .empty, ⟨_, [], .inl ⟨.empty, rfl⟩, rfl⟩, rfl⟩, List.nil_prefix⟩
    | accepting => exact ⟨_, ⟨calls, .empty, front, rfl⟩, List.prefix_append ..⟩
    | closed => exact ⟨calls, front, List.prefix_rfl⟩

end ShardCall

variable {σ η : Type} {shelf : Shelf σ η} {index : Nat} {world after : σ}

/-! ### Destinations that take everything -/

/-- Writing to a destination does not fail. -/
def Shelf.Steady (shelf : Shelf σ η) (index : Nat) : Prop :=
  ∀ ⦃world handle⦄ (octets : Bytes), shelf.Sound world → shelf.Owns index handle world →
    ∃ next after, (shelf.outlet index).push handle octets world = (.ok next, after)

namespace WriteBuffer

variable {buffer : WriteBuffer η} {octets piece : Bytes}

theorem Carries.flush_ok (carries : buffer.Carries shelf index octets world)
    (steady : shelf.Steady index) (sound : shelf.Sound world) :
    ∃ next after, buffer.flush (shelf.outlet index) world = (.ok (), next, after) := by
  rw [WriteBuffer.flush]
  split
  next => exact ⟨_, _, rfl⟩
  next =>
    obtain ⟨handle, behind, pushed⟩ := steady buffer.pending sound carries.owns
    rw [pushed]
    exact ⟨_, _, rfl⟩

theorem Carries.overflow_ok (carries : buffer.Carries shelf index octets world)
    (steady : shelf.Steady index) (sound : shelf.Sound world) (capacity : Nat) (piece : Bytes) :
    ∃ next after, buffer.overflow (shelf.outlet index) capacity piece world =
      (.ok (), next, after) := by
  rw [WriteBuffer.overflow]
  split
  next => exact ⟨_, _, rfl⟩
  next =>
    obtain ⟨handle, behind, pushed⟩ := steady piece sound carries.owns
    rw [pushed]
    exact ⟨_, _, rfl⟩

theorem Carries.write_ok (carries : buffer.Carries shelf index octets world)
    (steady : shelf.Steady index) (sound : shelf.Sound world) (capacity : Nat) (piece : Bytes) :
    ∃ next after, buffer.write (shelf.outlet index) capacity piece world =
      (.ok (), next, after) := by
  unfold WriteBuffer.write
  dsimp only
  split
  next => exact ⟨_, _, rfl⟩
  next =>
    split
    next => exact carries.overflow_ok steady sound capacity piece
    next =>
      obtain ⟨emptied, behind, flushed⟩ := carries.flush_ok steady sound
      obtain ⟨still, -, keeps⟩ := carries.flush sound flushed
      rw [flushed]
      exact still.overflow_ok steady keeps.sound capacity piece

theorem Carries.writeAll_ok {capacity : Nat} (carries : buffer.Carries shelf index octets world)
    (steady : shelf.Steady index) (sound : shelf.Sound world) (some_room : 0 < capacity)
    (pieces : List Bytes) :
    ∃ next after, buffer.writeAll (shelf.outlet index) capacity pieces world =
      (.ok (), next, after) := by
  induction pieces generalizing buffer octets world with
  | nil => exact ⟨_, _, rfl⟩
  | cons piece rest ih =>
      obtain ⟨filled, behind, taken⟩ := carries.write_ok steady sound capacity piece
      obtain ⟨still, keeps⟩ := carries.write sound some_room taken
      rw [WriteBuffer.writeAll, taken]
      exact ih still keeps.sound

end WriteBuffer

/-! ### One call -/

namespace Shard

variable {config : ArchiveConfig} {shard next : Shard σ η} {octets : Bytes} {count : Nat}

/-- Make a call. -/
def call (shard : Shard σ η) : ShardCall → σ → Outcome σ η Unit
  | .begin metadata, world => shard.begin metadata world
  | .write tile data, world => shard.write tile data world
  | .finish metadata, world =>
      let (result, shard, world) := shard.finish metadata world
      (result.map fun _ => (), shard, world)

/-- A call is not allowed, and changes nothing. -/
def Refuses (shard : Shard σ η) (call : ShardCall) (world : σ) : Prop :=
  ∃ operation, shard.call call world =
    (.error (.state shard.index operation shard.state), shard, world)

theorem Carries.put_ok (carries : shard.Carries shelf index config octets count world)
    (steady : shelf.Steady index) (sound : shelf.Sound world) (pieces : List Bytes) :
    ∃ next after, shard.put pieces world = (.ok (), next, after) := by
  obtain ⟨buffer, own, inner⟩ := carries.buffer
  obtain ⟨filled, behind, taken⟩ :=
    inner.writeAll_ok steady sound (show 0 < capacity by decide) pieces
  rw [Shard.put, own, carries.outlet]
  dsimp only
  rw [taken]
  exact ⟨_, _, rfl⟩

theorem Carries.write_ok (carries : shard.Carries shelf index config octets count world)
    (steady : shelf.Steady index) (sound : shelf.Sound world) (tile : Tile)
    (data : Option Bytes) : ∃ next after, shard.write tile data world = (.ok (), next, after) := by
  obtain ⟨filled, behind, put⟩ := carries.put_ok steady sound (shard.config.tilePieces tile data)
  rw [Shard.write, ensureOpen, carries.state]
  dsimp only
  rw [put]
  exact ⟨_, _, rfl⟩

theorem Carries.finish_ok (carries : shard.Carries shelf index config octets count world)
    (steady : shelf.Steady index) (sound : shelf.Sound world) (metadata : Metadata) :
    ∃ handle next after, shard.finish metadata world = (.ok handle, next, after) ∧
      next.state = .closed ∧ next.buffer = none := by
  obtain ⟨filled, behind, put⟩ := carries.put_ok steady sound (shard.config.footerPieces metadata)
  obtain ⟨last, keeps⟩ := carries.put sound put
  obtain ⟨buffer, own, inner⟩ := last.buffer
  obtain ⟨emptied, end_world, flushed⟩ := inner.flush_ok steady keeps.sound
  rw [Shard.finish, ensureOpen, carries.state]
  dsimp only
  rw [put]
  dsimp only
  rw [own, last.outlet]
  dsimp only
  rw [flushed]
  exact ⟨_, _, _, rfl, rfl, rfl⟩

theorem requiresHeader_iff : config.requiresHeader ↔ config.format = .proto := by
  rw [ArchiveConfig.requiresHeader]
  cases config.format <;> decide

theorem refuses_of_closed (closed : shard.state = .closed) (call : ShardCall) (world : σ) :
    shard.Refuses call world := by
  cases call with
  | begin => exact ⟨.begin, by simp [Shard.call, Shard.begin, closed, illegal]⟩
  | write => exact ⟨.write, by simp [Shard.call, Shard.write, ensureOpen, closed, illegal]⟩
  | finish =>
      exact ⟨.finish, by simp [Shard.call, Shard.finish, ensureOpen, closed, illegal, Except.map]⟩

theorem Carries.refuses_begin (carries : shard.Carries shelf index config octets count world)
    (metadata : Metadata) : shard.Refuses (.begin metadata) world :=
  ⟨.begin, by simp [Shard.call, Shard.begin, carries.state, illegal]⟩

/-- Without a header, a shard that requires one is not opened. -/
theorem refuses_of_headed (unopened : shard.state = .unopened)
    (headed : shard.config.format = .proto) {call : ShardCall}
    (other : ∀ metadata, call ≠ .begin metadata) (world : σ) : shard.Refuses call world := by
  have required := requiresHeader_iff.2 headed
  cases call with
  | begin metadata => exact absurd rfl (other metadata)
  | write =>
      exact ⟨.write, by simp [Shard.call, Shard.write, ensureOpen, unopened, required, illegal]⟩
  | finish =>
      exact ⟨.finish, by
        simp [Shard.call, Shard.finish, ensureOpen, unopened, required, illegal, Except.map]⟩

/-- A destination that could not be opened is not tried again. -/
theorem refuses_of_tried (unopened : shard.state = .unopened) (tried : shard.tried)
    (call : ShardCall) (world : σ) : shard.Refuses call world := by
  by_cases headed : shard.config.format = .proto ∧ ∀ metadata, call ≠ .begin metadata
  · exact refuses_of_headed unopened headed.1 headed.2 world
  · refine ⟨.acquire, ?_⟩
    cases call with
    | begin metadata => simp [Shard.call, Shard.begin, acquire, unopened, tried, illegal]
    | write =>
        have free : shard.config.requiresHeader = false := by
          simpa [← requiresHeader_iff] using headed
        simp [Shard.call, Shard.write, ensureOpen, acquire, unopened, tried, free, illegal]
    | finish =>
        have free : shard.config.requiresHeader = false := by
          simpa [← requiresHeader_iff] using headed
        simp [Shard.call, Shard.finish, ensureOpen, acquire, unopened, tried, free, illegal,
          Except.map]

/-- The calls that open a destination. -/
def Opens (config : ArchiveConfig) (call : ShardCall) : Prop :=
  (∃ metadata, call = .begin metadata) ∨ config.format ≠ .proto

theorem ensureOpen_of_free (unopened : shard.state = .unopened)
    (free : shard.config.format ≠ .proto) (operation : ShardOperation) (world : σ) :
    shard.ensureOpen operation world = shard.acquire world := by
  rw [ensureOpen, unopened]
  exact if_neg (mt requiresHeader_iff.1 free)

/-- The reason why a destination cannot be opened is told once. -/
theorem call_of_denied {error : ArchiveError} (unopened : shard.state = .unopened)
    {call : ShardCall} (opens : Opens shard.config call)
    (denied : shard.acquire world = (.error error, next, after)) :
    shard.call call world = (.error error, next, after) := by
  cases call with
  | begin metadata => rw [Shard.call, Shard.begin, if_neg (not_not_intro unopened), denied]
  | write =>
      have free := opens.resolve_left (by simp)
      rw [Shard.call, Shard.write, ensureOpen_of_free unopened free, denied]
  | finish =>
      have free := opens.resolve_left (by simp)
      rw [Shard.call, Shard.finish, ensureOpen_of_free unopened free, denied]
      rfl

/-- A call that opens the destination goes on as on an open one. -/
theorem call_of_acquired (unopened : shard.state = .unopened) {call : ShardCall}
    (opens : Opens shard.config call) (acquired : shard.acquire world = (.ok (), next, after))
    (accepting : next.state = .accepting) :
    shard.call call world =
      match call with
      | .begin metadata => next.put (next.config.headerPieces metadata) after
      | call => next.call call after := by
  cases call with
  | begin metadata => rw [Shard.call, Shard.begin, if_neg (not_not_intro unopened), acquired]
  | write =>
      have free := opens.resolve_left (by simp)
      change shard.write .. = next.write ..
      rw [Shard.write, ensureOpen_of_free unopened free, acquired, Shard.write, ensureOpen,
        accepting]
  | finish =>
      have free := opens.resolve_left (by simp)
      have same (metadata : Metadata) :
          shard.finish metadata world = next.finish metadata after := by
        rw [Shard.finish, ensureOpen_of_free unopened free, acquired, Shard.finish, ensureOpen,
          accepting]
      change shard.call (.finish _) world = next.call (.finish _) after
      rw [Shard.call, Shard.call, same]

end Shard
end TileBindery
