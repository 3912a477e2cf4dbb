import TileBindery.Proofs.Archive.ShardCalls
import TileBindery.Proofs.History

/-!
# The life of a shard

The calls of a shard are made in any order, and others use other destinations between them.  The
main statement says which calls a shard accepts as long as writing does not fail: they are in the
order of a stream, a header, tiles and a footer.  A call out of order changes nothing, and a
destination that cannot be opened is not tried again.
-/

namespace TileBindery

/-- What happens to a shard. -/
inductive ShardEvent where
  /-- A call is made, with this answer. -/
  | call (call : ShardCall) (answer : Except ArchiveError Unit)
  /-- Others use other destinations. -/
  | change

namespace ShardEvent

/-- The calls of a history that were accepted, in order. -/
def accepted : List ShardEvent → List ShardCall
  | [] => []
  | .call taken (.ok ()) :: rest => taken :: accepted rest
  | _ :: rest => accepted rest

/-- The destination could not be opened. -/
def IsDenied : ShardEvent → Prop
  | .call _ (.error (.device _)) => True
  | _ => False

/-- A call was refused, as the state of an unopened shard does not allow it. -/
def IsRefused : ShardEvent → Prop
  | .call _ answer => ∃ number operation, answer = .error (.state number operation .unopened)
  | .change => True

end ShardEvent

namespace Shard

open Routing

variable {σ η : Type} {shelf : Shelf σ η} {index number : Nat} {world after : σ}
  {config : ArchiveConfig} {shard next : Shard σ η} {old : Bytes} {calls : List ShardCall}
  {call : ShardCall}

/-! ### Between two calls -/

/-- A shard in front of a destination that could not be opened. -/
def shut (number : Nat) (config : ArchiveConfig) (outlet : Outlet σ η) : Shard σ η :=
  { Shard.ofOutlet number config outlet with tried := true }

theorem shut_refuses {outlet : Outlet σ η} (call : ShardCall) (world : σ) :
    (shut number config outlet).Refuses call world := refuses_of_tried rfl rfl call world

/-- A shard in front of a destination that held `old`, after the calls it has accepted. -/
inductive Follows (shelf : Shelf σ η) (index number : Nat) (config : ArchiveConfig)
    (old : Bytes) : List ShardCall → σ → Shard σ η → Prop
  /-- Nothing has been tried. -/
  | idle {world : σ} (sound : shelf.Sound world) (held : shelf.held index world = old) :
      Follows shelf index number config old [] world (.ofOutlet number config (shelf.outlet index))
  | filling {calls : List ShardCall} {world : σ} {shard : Shard σ η} (sound : shelf.Sound world)
      (order : ShardCall.state? (config.format = .proto) calls = some .accepting)
      (carries : shard.Carries shelf index config (old ++ ShardCall.stream config calls)
        (calls.countP ShardCall.isWrite) world) :
      Follows shelf index number config old calls world shard
  | complete {calls : List ShardCall} {world : σ} {shard : Shard σ η} (sound : shelf.Sound world)
      (order : ShardCall.state? (config.format = .proto) calls = some .closed)
      (closed : shard.state = .closed) (buffer : shard.buffer = none)
      (complete : shard.Complete shelf index (old ++ ShardCall.stream config calls)
        (calls.countP ShardCall.isWrite) world) :
      Follows shelf index number config old calls world shard

/-- An open shard takes a tile or a footer. -/
theorem Carries.accepts (calls : List ShardCall) {state : ShardState}
    (carries : shard.Carries shelf index config (old ++ ShardCall.stream config calls)
      (calls.countP ShardCall.isWrite) world)
    (steady : shelf.Steady index) (sound : shelf.Sound world)
    (other : ∀ metadata, call ≠ .begin metadata)
    (order : ShardCall.state? (config.format = .proto) (calls ++ [call]) = some state) :
    ∃ next after, shard.call call world = (.ok (), next, after) ∧
      Follows shelf index number config old (calls ++ [call]) after next := by
  have ordered := order
  rw [ShardCall.state?_concat] at ordered
  obtain ⟨before, -, step⟩ := Option.bind_eq_some_iff.1 ordered
  cases call with
  | begin metadata => exact absurd rfl (other metadata)
  | write tile data =>
      obtain rfl := ShardCall.next?_write step
      obtain ⟨next, after, wrote⟩ := carries.write_ok steady sound tile data
      obtain ⟨filled, keeps⟩ := carries.write sound wrote
      refine ⟨next, after, wrote, .filling keeps.sound order ?_⟩
      rw [ShardCall.stream_concat, ← List.append_assoc, List.countP_append]
      exact filled
  | finish metadata =>
      obtain rfl := ShardCall.next?_finish step
      obtain ⟨handle, next, after, finished, closed, released⟩ :=
        carries.finish_ok steady sound metadata
      obtain ⟨complete, keeps⟩ := carries.finish sound finished
      refine ⟨next, after, ?_, .complete keeps.sound order closed released ?_⟩
      · rw [Shard.call, finished]
        rfl
      · rw [ShardCall.stream_concat, ← List.append_assoc, List.countP_append]
        exact complete

/-- A call that is out of order is refused. -/
theorem Follows.refuses (follows : shard.Follows shelf index number config old calls world)
    (out : ¬ShardCall.InOrder (config.format = .proto) (calls ++ [call])) :
    shard.Refuses call world := by
  have stops {state : ShardState}
      (order : ShardCall.state? (config.format = .proto) calls = some state) :
      ShardCall.next? (config.format = .proto) state call = none := by
    rw [ShardCall.inOrder_iff, ShardCall.state?_concat, order] at out
    simpa [Option.eq_none_iff_forall_ne_some] using out
  cases follows with
  | idle =>
      have stop := stops rfl
      cases call with
      | begin => simp [ShardCall.next?] at stop
      | write | finish =>
          have headed : config.format = .proto := by simpa [ShardCall.next?] using stop
          exact refuses_of_headed rfl headed (by simp) world
  | filling sound order carries =>
      have stop := stops order
      cases call with
      | begin metadata => exact carries.refuses_begin metadata
      | write | finish => simp [ShardCall.next?] at stop
  | complete _ _ closed => exact refuses_of_closed closed call world

theorem opens_of_inOrder (order : ShardCall.InOrder (config.format = .proto) [call]) :
    Opens config call := by
  obtain ⟨state, reached⟩ := ShardCall.inOrder_iff.1 order
  change ShardCall.next? _ .unopened call >>= pure = some state at reached
  rw [bind_pure] at reached
  cases call with
  | begin metadata => exact .inl ⟨metadata, rfl⟩
  | write | finish =>
      refine .inr fun headed => ?_
      rw [ShardCall.next?, if_pos headed] at reached
      cases reached

/-- A shard that has not been used opens its destination for a call in order, if that can be
opened. -/
theorem accepts_of_idle (steady : shelf.Steady index) (sound : shelf.Sound world)
    (order : ShardCall.InOrder (config.format = .proto) [call]) {handle : η}
    (acquired : (shelf.outlet index).acquire world = (.ok handle, after)) :
    ∃ next behind, (ofOutlet number config (shelf.outlet index)).call call world =
        (.ok (), next, behind) ∧
      Follows shelf index number config (shelf.held index world) [call] behind next := by
  let fresh := ofOutlet number config (shelf.outlet index)
  have opened : fresh.acquire world =
      (.ok (), { fresh with tried := true, buffer := some (.ofHandle handle), state := .accepting },
        after) := by
    simp [fresh, acquire, ofOutlet, acquired]
  have idle : fresh.Idle shelf index config (shelf.held index world) world := ⟨⟨number, rfl⟩, rfl⟩
  obtain ⟨carries, keeps⟩ := idle.acquire sound opened
  rw [← List.append_nil (shelf.held index world)] at carries
  rw [call_of_acquired rfl (opens_of_inOrder order) opened rfl]
  obtain ⟨state, reached⟩ := ShardCall.inOrder_iff.1 order
  cases call with
  | begin metadata =>
      obtain ⟨next, behind, put⟩ := carries.put_ok steady keeps.sound (config.headerPieces metadata)
      obtain ⟨filled, still⟩ := carries.put keeps.sound put
      refine ⟨next, behind, put, .filling still.sound rfl ?_⟩
      rw [List.append_nil] at filled
      rwa [ShardCall.stream, List.flatMap_singleton, ShardCall.octets]
  | write | finish =>
      exact Carries.accepts [] carries steady keeps.sound (by simp) reached

/-- A call in order is accepted, but for a destination that cannot be opened. -/
theorem Follows.accepts (follows : shard.Follows shelf index number config old calls world)
    (steady : shelf.Steady index)
    (order : ShardCall.InOrder (config.format = .proto) (calls ++ [call])) :
    (∃ next after, shard.call call world = (.ok (), next, after) ∧
      Follows shelf index number config old (calls ++ [call]) after next) ∨
    calls = [] ∧ shard = ofOutlet number config (shelf.outlet index) ∧ ∃ reason after,
      (shelf.outlet index).acquire world = (.error reason, after) ∧
      shard.call call world =
        (.error (.device reason), shut number config (shelf.outlet index), after) := by
  cases follows with
  | idle sound held =>
      subst held
      cases opener : (shelf.outlet index).acquire world with
      | mk result after =>
          cases result with
          | ok handle => exact .inl (accepts_of_idle steady sound order opener)
          | error reason =>
              refine .inr ⟨rfl, rfl, reason, after, rfl, ?_⟩
              refine call_of_denied rfl (opens_of_inOrder order) ?_
              simp [acquire, ofOutlet, shut, opener]
  | filling sound reached carries =>
      left
      obtain ⟨state, order⟩ := ShardCall.inOrder_iff.1 order
      refine carries.accepts calls steady sound ?_ order
      rintro metadata rfl
      rw [ShardCall.state?_concat, reached] at order
      cases order
  | complete _ reached =>
      obtain ⟨state, order⟩ := ShardCall.inOrder_iff.1 order
      rw [ShardCall.state?_concat, reached] at order
      cases order

theorem Follows.of_keeps {other : Nat}
    (follows : shard.Follows shelf index number config old calls world)
    (keeps : shelf.Keeps other world after) (apart : index ≠ other) :
    shard.Follows shelf index number config old calls after := by
  cases follows with
  | idle _ held => exact .idle keeps.sound ((keeps.held index apart).trans held)
  | filling _ order carries => exact .filling keeps.sound order (carries.of_keeps keeps apart)
  | complete _ order closed released complete =>
      exact .complete keeps.sound order closed released (complete.of_keeps keeps apart)

/-! ### Histories -/

/-- One event in the life of a shard and the world around it. -/
inductive Step (shelf : Shelf σ η) (index : Nat) :
    Shard σ η × σ → ShardEvent → Shard σ η × σ → Prop where
  | call (shard : Shard σ η) (world : σ) (call : ShardCall) :
      Step shelf index (shard, world) (.call call (shard.call call world).1)
        (shard.call call world).2
  | change {shard : Shard σ η} {world after : σ} {other : Nat}
      (keeps : shelf.Keeps other world after) (apart : index ≠ other) :
      Step shelf index (shard, world) .change (shard, after)

/-- Make calls one after the other. -/
def callAll : List ShardCall → Shard σ η × σ → List ShardEvent × Shard σ η × σ
  | [], state => ([], state)
  | call :: calls, (shard, world) =>
      let (answer, state) := shard.call call world
      let (events, last) := callAll calls state
      (.call call answer :: events, last)

theorem history_callAll (calls : List ShardCall) (state : Shard σ η × σ) :
    History (Step shelf index) state (callAll calls state).1 (callAll calls state).2 := by
  induction calls generalizing state with
  | nil => exact .nil state
  | cons call calls ih => exact .cons (.call state.1 state.2 call) (ih _)

/-- Behind a destination that could not be opened, every call is refused. -/
theorem of_shut {state last : Shard σ η × σ} {events : List ShardEvent}
    (history : History (Step shelf index) state events last)
    (start : state.1 = shut number config (shelf.outlet index)) :
    last.1 = shut number config (shelf.outlet index) ∧ ShardEvent.accepted events = [] ∧
      ∀ event ∈ events, event.IsRefused := by
  induction history with
  | nil => exact ⟨start, rfl, by simp⟩
  | @cons state next last event events step _ ih =>
      cases step with
      | call shard world call =>
          obtain rfl : shard = _ := start
          obtain ⟨operation, refused⟩ := shut_refuses call world
          rw [refused] at ih ⊢
          obtain ⟨stays, none, all⟩ := ih rfl
          exact ⟨stays, none, List.forall_mem_cons.2 ⟨⟨number, operation, rfl⟩, all⟩⟩
      | change keeps apart =>
          obtain ⟨stays, none, all⟩ := ih start
          exact ⟨stays, none, List.forall_mem_cons.2 ⟨trivial, all⟩⟩

/-- A shard follows the calls that it accepts, unless its destination cannot be opened. -/
theorem follows_of_history {state last : Shard σ η × σ} {events : List ShardEvent}
    (history : History (Step shelf index) state events last) (steady : shelf.Steady index)
    (follows : state.1.Follows shelf index number config old calls state.2) :
    last.1.Follows shelf index number config old (calls ++ ShardEvent.accepted events) last.2 ∨
      calls = [] ∧ ShardEvent.accepted events = [] ∧
        last.1 = shut number config (shelf.outlet index) ∧ ∃ event ∈ events, event.IsDenied := by
  induction history generalizing calls with
  | nil => exact .inl (by rwa [ShardEvent.accepted, List.append_nil])
  | @cons state next last event events step rest ih =>
      cases step with
      | call shard world call =>
          by_cases order : ShardCall.InOrder (config.format = .proto) (calls ++ [call])
          · rcases follows.accepts steady order with
              ⟨next, after, done, behind⟩ | ⟨rfl, -, reason, after, -, denied⟩
            · rw [done] at ih ⊢
              rcases ih behind with still | ⟨none, -⟩
              · rw [List.append_assoc] at still
                exact .inl still
              · simp at none
            · rw [denied] at rest ⊢
              obtain ⟨shut, none, -⟩ := of_shut rest rfl
              exact .inr ⟨rfl, none, shut, _, List.mem_cons_self, trivial⟩
          · obtain ⟨operation, refused⟩ := follows.refuses order
            rw [refused] at ih ⊢
            rcases ih follows with still | ⟨none, others, shut, event, member, denied⟩
            · exact .inl still
            · exact .inr ⟨none, others, shut, event, List.mem_cons_of_mem _ member, denied⟩
      | change keeps apart =>
          rcases ih (follows.of_keeps keeps apart) with
            still | ⟨none, others, shut, event, member, denied⟩
          · exact .inl still
          · exact .inr ⟨none, others, shut, event, List.mem_cons_of_mem _ member, denied⟩

/-- What waits in front of a shard's destination. -/
def pending (shard : Shard σ η) : Bytes := shard.buffer.elim [] WriteBuffer.pending

theorem Follows.inOrder (follows : shard.Follows shelf index number config old calls world) :
    ShardCall.InOrder (config.format = .proto) calls ∧
      shard.tilesWritten = calls.countP ShardCall.isWrite ∧
      shelf.held index world ++ shard.pending = old ++ ShardCall.stream config calls := by
  cases follows with
  | idle _ held =>
      exact ⟨ShardCall.inOrder_iff.2 ⟨_, rfl⟩, rfl, congrArg (· ++ []) held⟩
  | filling _ order carries =>
      obtain ⟨buffer, own, inner⟩ := carries.buffer
      refine ⟨ShardCall.inOrder_iff.2 ⟨_, order⟩, carries.count, ?_⟩
      rw [pending, own]
      exact inner.whole
  | complete _ order _ released complete =>
      refine ⟨ShardCall.inOrder_iff.2 ⟨_, order⟩, complete.count, ?_⟩
      rw [pending, released]
      exact (List.append_nil _).trans complete.held

theorem Follows.eq_nil_of_unopened
    (follows : shard.Follows shelf index number config old calls world)
    (unopened : shard.state = .unopened) : calls = [] := by
  cases follows with
  | idle => rfl
  | filling _ _ carries => cases carries.state.symm.trans unopened
  | complete _ _ closed => cases closed.symm.trans unopened

/-- Only a shard that has not been used reports that its destination cannot be opened. -/
theorem Follows.shut_of_denied (follows : shard.Follows shelf index number config old calls world)
    (steady : shelf.Steady index) {reason : DeviceError}
    (denied : (shard.call call world).1 = .error (.device reason)) :
    (shard.call call world).2.1 = shut number config (shelf.outlet index) := by
  by_cases order : ShardCall.InOrder (config.format = .proto) (calls ++ [call])
  · rcases follows.accepts steady order with ⟨next, after, done, -⟩ | ⟨-, -, _, after, -, done⟩
    · rw [done] at denied
      cases denied
    · rw [done]
  · obtain ⟨operation, refused⟩ := follows.refuses order
    rw [refused] at denied
    cases denied

/-- Whatever calls of a shard are made in whatever order, as long as writing does not fail: those
that it accepts are in the order of a stream, its tiles are counted, and all that they add is kept.
A call out of order is refused without a trace.  A call in order is accepted, unless the destination
cannot be opened.  That is told once, and is the end: all later calls are refused. -/
theorem calls_in_order {events : List ShardEvent} {last : Shard σ η} {left : σ}
    (steady : shelf.Steady index) (sound : shelf.Sound world)
    (history : History (Step shelf index) (ofOutlet number config (shelf.outlet index), world)
      events (last, left)) :
    ShardCall.InOrder (config.format = .proto) (ShardEvent.accepted events) ∧
    last.tilesWritten = (ShardEvent.accepted events).countP ShardCall.isWrite ∧
    (ShardEvent.accepted events ≠ [] → shelf.held index left ++ last.pending =
      shelf.held index world ++ ShardCall.stream config (ShardEvent.accepted events)) ∧
    (∀ call, ¬ShardCall.InOrder (config.format = .proto) (ShardEvent.accepted events ++ [call]) →
      last.Refuses call left) ∧
    (∀ call, ShardCall.InOrder (config.format = .proto) (ShardEvent.accepted events ++ [call]) →
      (∃ next after, last.call call left = (.ok (), next, after)) ∨
      (ShardEvent.accepted events = [] ∧ ∃ reason after,
        (shelf.outlet index).acquire left = (.error reason, after) ∧ last.call call left =
          (.error (.device reason), shut number config (shelf.outlet index), after)) ∨
      (∃ event ∈ events, event.IsDenied) ∧ last.Refuses call left) ∧
    ∀ front call reason back, events = front ++ .call call (.error (.device reason)) :: back →
      last = shut number config (shelf.outlet index) ∧ ShardEvent.accepted events = [] ∧
        ∀ event ∈ back, event.IsRefused := by
  have start : (ofOutlet number config (shelf.outlet index)).Follows shelf index number config
      (shelf.held index world) [] world := .idle sound rfl
  -- A destination is opened by the first call in order.  So this reports the failure, and leaves
  -- the shard shut behind it.
  have told : ∀ front call reason back,
      events = front ++ .call call (.error (.device reason)) :: back →
        last = shut number config (shelf.outlet index) ∧ ∀ event ∈ back, event.IsRefused := by
    rintro front call reason back rfl
    obtain ⟨⟨middle, between⟩, before, behind⟩ := history.split
    generalize answered : ShardEvent.call call (.error (.device reason)) = event at behind
    cases behind with
    | cons step rest =>
        cases step with
        | change => cases answered
        | call _ _ made =>
            obtain ⟨rfl, denied⟩ := ShardEvent.call.inj answered
            rcases follows_of_history before steady start with follows | ⟨-, -, rfl, -⟩
            · obtain ⟨shut, -, refused⟩ := of_shut rest (follows.shut_of_denied steady denied.symm)
              exact ⟨shut, refused⟩
            · obtain ⟨operation, refused⟩ := shut_refuses call between
              rw [refused] at denied
              cases denied
  rcases follows_of_history history steady start with
    follows | ⟨-, none, rfl, event, member, denied⟩
  · obtain ⟨order, count, whole⟩ := follows.inOrder
    refine ⟨order, count, fun _ => whole, fun call => follows.refuses, fun call order => ?_, ?_⟩
    · rcases follows.accepts steady order with
        ⟨next, after, done, -⟩ | ⟨none, -, reason, after, failed, denied⟩
      · exact .inl ⟨next, after, done⟩
      · exact .inr (.inl ⟨none, reason, after, failed, denied⟩)
    · intro front call reason back parts
      obtain ⟨shut, refused⟩ := told front call reason back parts
      exact ⟨shut, follows.eq_nil_of_unopened (by rw [shut]; rfl), refused⟩
  · rw [none]
    refine ⟨ShardCall.inOrder_iff.2 ⟨_, rfl⟩, rfl, fun some => absurd rfl some,
      fun call _ => shut_refuses call left,
      fun call _ => .inr (.inr ⟨⟨event, member, denied⟩, shut_refuses call left⟩),
      ?_⟩
    intro front call reason back parts
    exact ⟨rfl, rfl, (told front call reason back parts).2⟩

/-- Files of an archive on a disk. -/
def files : Shelf Disk OpenFile := Disk.shelf false (shardPath "tiles") location_shardPath_injective

theorem files_steady (index : Nat) : files.Steady index := fun _ _ _ _ _ => ⟨_, _, rfl⟩

/-- A tile, a header that comes too late, a footer and a tile that comes too late. -/
def lateCalls : List ShardEvent × Shard Disk OpenFile × Disk :=
  callAll [.write ⟨0, 0, 0⟩ (some [7]), .begin .empty, .finish .empty, .write ⟨1, 0, 0⟩ none]
    (ofOutlet 0 (.ofFormat .csv) (files.outlet 0), .empty)

theorem calls_in_order_lines :
    ShardEvent.accepted lateCalls.1 = [.write ⟨0, 0, 0⟩ (some [7]), .finish .empty] ∧
      lateCalls.2.1.tilesWritten = 1 ∧ lateCalls.2.1.Refuses (.begin .empty) lateCalls.2.2 := by
  have accepted : ShardEvent.accepted lateCalls.1 =
      [.write ⟨0, 0, 0⟩ (some [7]), .finish .empty] := by decide +kernel
  have sound : files.Sound .empty := Disk.separate_of_entries (by decide) (by decide)
  have history : History (Step files 0) (ofOutlet 0 (.ofFormat .csv) (files.outlet 0), .empty)
      lateCalls.1 lateCalls.2 := history_callAll _ _
  generalize lateCalls = late at accepted history ⊢
  obtain ⟨-, count, -, refused, -⟩ := calls_in_order (files_steady 0) sound history
  rw [accepted] at count refused
  refine ⟨accepted, count, refused (.begin .empty) ?_⟩
  rw [ShardCall.inOrder_iff]
  rintro ⟨state, reached⟩
  cases reached

end Shard
end TileBindery
