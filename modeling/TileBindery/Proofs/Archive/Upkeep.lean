import TileBindery.Pipeline.TileWriting

/-!
# What writing an archive cannot break

A property of the world that opening and writing to destinations keeps is kept by everything that is
done to an archive, whether it succeeds or fails.
-/

namespace TileBindery

variable {σ η : Type}

/-- Opening a destination and writing to it keeps the world `safe`, as long as it is held by
something that `fits`. -/
structure Outlet.Upholds (outlet : Outlet σ η) (safe : σ → Prop) (fits : η → Prop) : Prop where
  acquire : ∀ world, safe world → safe (outlet.acquire world).2
  /-- What a destination is opened with fits. -/
  fits_acquire : ∀ world handle, safe world → (outlet.acquire world).1 = .ok handle → fits handle
  push : ∀ handle octets world, fits handle → safe world → safe (outlet.push handle octets world).2
  /-- It still does once something has been written. -/
  fits_push : ∀ handle octets world next, fits handle → safe world →
    (outlet.push handle octets world).1 = .ok next → fits next

variable {safe : σ → Prop} {fits : η → Prop} {outlet : Outlet σ η} {world : σ}

/-! ### Buffers -/

namespace WriteBuffer

variable {buffer : WriteBuffer η}

/-- A buffer operation has left a safe world and a buffer that fits. -/
structure Upheld {α : Type} (safe : σ → Prop) (fits : η → Prop)
    (outcome : α × WriteBuffer η × σ) : Prop where
  fits : fits outcome.2.1.handle
  safe : safe outcome.2.2

theorem upheld_flush (upholds : outlet.Upholds safe fits) (own : fits buffer.handle)
    (still : safe world) : Upheld safe fits (buffer.flush outlet world) := by
  have kept := upholds.push buffer.handle buffer.pending world own still
  have held := upholds.fits_push buffer.handle buffer.pending world
  rw [flush]
  split
  · exact ⟨own, still⟩
  · generalize outlet.push buffer.handle buffer.pending world = outcome at kept held
    obtain ⟨error | handle, behind⟩ := outcome
    · exact ⟨own, kept⟩
    · exact ⟨held handle own still rfl, kept⟩

theorem upheld_overflow (upholds : outlet.Upholds safe fits) (capacity : Nat) (piece : Bytes)
    (own : fits buffer.handle) (still : safe world) :
    Upheld safe fits (buffer.overflow outlet capacity piece world) := by
  have kept := upholds.push buffer.handle piece world own still
  have held := upholds.fits_push buffer.handle piece world
  rw [overflow]
  split
  · exact ⟨own, still⟩
  · generalize outlet.push buffer.handle piece world = outcome at kept held
    obtain ⟨error | handle, behind⟩ := outcome
    · exact ⟨own, kept⟩
    · exact ⟨held handle own still rfl, kept⟩

theorem upheld_write (upholds : outlet.Upholds safe fits) (capacity : Nat) (piece : Bytes)
    (own : fits buffer.handle) (still : safe world) :
    Upheld safe fits (buffer.write outlet capacity piece world) := by
  have flushed := upheld_flush upholds own still
  unfold write
  dsimp only
  split
  · exact ⟨own, still⟩
  · split
    · exact upheld_overflow upholds capacity piece own still
    · generalize buffer.flush outlet world = outcome at flushed
      obtain ⟨error | _, next, behind⟩ := outcome
      · exact flushed
      · exact upheld_overflow upholds capacity piece flushed.fits flushed.safe

theorem upheld_writeAll (upholds : outlet.Upholds safe fits) (capacity : Nat)
    (pieces : List Bytes) (own : fits buffer.handle) (still : safe world) :
    Upheld safe fits (buffer.writeAll outlet capacity pieces world) := by
  induction pieces generalizing buffer world with
  | nil => exact ⟨own, still⟩
  | cons piece rest ih =>
      have first := upheld_write upholds capacity piece own still
      rw [writeAll]
      generalize buffer.write outlet capacity piece world = outcome at first
      obtain ⟨error | _, next, behind⟩ := outcome
      · exact first
      · exact ih first.fits first.safe

end WriteBuffer

/-! ### Shards -/

namespace Shard

variable {shard : Shard σ η}

/-- A shard has a destination that keeps the world safe, and fits if it is open. -/
structure Upright (safe : σ → Prop) (fits : η → Prop) (shard : Shard σ η) : Prop where
  outlet : shard.outlet.Upholds safe fits
  /-- What the destination is held by fits. -/
  buffer : ∀ buffer ∈ shard.buffer, fits buffer.handle

/-- A shard operation has left a safe world and an upright shard. -/
structure Upheld {α : Type} (safe : σ → Prop) (fits : η → Prop)
    (outcome : α × Shard σ η × σ) : Prop where
  upright : outcome.2.1.Upright safe fits
  safe : safe outcome.2.2

theorem upheld_acquire (upright : shard.Upright safe fits) (still : safe world) :
    Upheld safe fits (shard.acquire world) := by
  have kept := upright.outlet.acquire world still
  have held := upright.outlet.fits_acquire world
  rw [acquire]
  split
  · exact ⟨upright, still⟩
  · generalize shard.outlet.acquire world = outcome at kept held
    obtain ⟨error | handle, behind⟩ := outcome
    · exact ⟨⟨upright.outlet, upright.buffer⟩, kept⟩
    · refine ⟨⟨upright.outlet, ?_⟩, kept⟩
      rintro _ ⟨⟩
      exact held handle still rfl

theorem upheld_ensureOpen (upright : shard.Upright safe fits) (operation : ShardOperation)
    (still : safe world) : Upheld safe fits (shard.ensureOpen operation world) := by
  rw [ensureOpen]
  split
  · exact ⟨upright, still⟩
  · split
    · exact ⟨upright, still⟩
    · exact upheld_acquire upright still
  · exact ⟨upright, still⟩

theorem upheld_put (upright : shard.Upright safe fits) (pieces : List Bytes)
    (still : safe world) : Upheld safe fits (shard.put pieces world) := by
  rw [put]
  split
  · exact ⟨upright, still⟩
  next buffer own =>
    have taken := WriteBuffer.upheld_writeAll upright.outlet capacity pieces
      (upright.buffer buffer own) still
    refine ⟨⟨upright.outlet, ?_⟩, taken.safe⟩
    rintro _ ⟨⟩
    exact taken.fits

theorem upheld_write (upright : shard.Upright safe fits) (tile : Tile) (data : Option Bytes)
    (still : safe world) : Upheld safe fits (shard.write tile data world) := by
  have opened := upheld_ensureOpen upright .write still
  rw [write]
  generalize shard.ensureOpen .write world = outcome at opened
  obtain ⟨error | _, next, behind⟩ := outcome
  · exact opened
  · have taken := upheld_put opened.upright (next.config.tilePieces tile data) opened.safe
    dsimp only at taken ⊢
    generalize next.put (next.config.tilePieces tile data) behind = outcome at taken
    obtain ⟨error | _, last, after⟩ := outcome
    · exact taken
    · exact ⟨⟨taken.upright.outlet, taken.upright.buffer⟩, taken.safe⟩

theorem upheld_release (upright : shard.Upright safe fits) (still : safe world) :
    (shard.release world).1.Upright safe fits ∧ safe (shard.release world).2 := by
  rw [release]
  split
  · exact ⟨upright, still⟩
  next buffer own =>
    have flushed := WriteBuffer.upheld_flush upright.outlet (upright.buffer buffer own) still
    refine ⟨⟨upright.outlet, ?_⟩, flushed.safe⟩
    rintro _ ⟨⟩

theorem upheld_finish (upright : shard.Upright safe fits) (metadata : Metadata)
    (still : safe world) : Upheld safe fits (shard.finish metadata world) := by
  have opened := upheld_ensureOpen upright .finish still
  rw [finish]
  generalize shard.ensureOpen .finish world = outcome at opened
  obtain ⟨error | _, next, behind⟩ := outcome
  · exact ⟨opened.upright, opened.safe⟩
  · have taken := upheld_put opened.upright (next.config.footerPieces metadata) opened.safe
    dsimp only at taken ⊢
    generalize next.put (next.config.footerPieces metadata) behind = outcome at taken
    obtain ⟨error | _, last, after⟩ := outcome
    · exact ⟨taken.upright, taken.safe⟩
    · dsimp only
      split
      · exact ⟨⟨taken.upright.outlet, taken.upright.buffer⟩, taken.safe⟩
      next buffer own =>
        have flushed := WriteBuffer.upheld_flush taken.upright.outlet
          (taken.upright.buffer buffer own) taken.safe
        dsimp only at flushed
        generalize buffer.flush last.outlet after = outcome at flushed
        obtain ⟨error | _, kept, ending⟩ := outcome
        · have waiting : Upright safe fits
              { last with state := ShardState.closed, buffer := some kept } := by
            refine ⟨taken.upright.outlet, ?_⟩
            rintro _ ⟨⟩
            exact flushed.fits
          obtain ⟨released, left⟩ := upheld_release waiting flushed.safe
          exact ⟨released, left⟩
        · refine ⟨⟨taken.upright.outlet, ?_⟩, flushed.safe⟩
          rintro _ ⟨⟩

end Shard

/-! ### Writers -/

namespace ArchiveWriter

variable {writer : ArchiveWriter σ η}

/-- Every shard of a writer is upright. -/
def Upright (safe : σ → Prop) (fits : η → Prop) (writer : ArchiveWriter σ η) : Prop :=
  ∀ shard ∈ writer.shards, shard.Upright safe fits

/-- A writer operation has left a safe world and an upright writer. -/
structure Upheld {α : Type} (safe : σ → Prop) (fits : η → Prop)
    (outcome : α × ArchiveWriter σ η × σ) : Prop where
  upright : outcome.2.1.Upright safe fits
  safe : safe outcome.2.2

theorem upheld_forShards {α : Type} {operation : Shard σ η → σ → Shard.Outcome σ η α}
    (step : ∀ shard world, shard.Upright safe fits → safe world →
      Shard.Upheld safe fits (operation shard world))
    {shards : List (Shard σ η)} (upright : ∀ shard ∈ shards, shard.Upright safe fits)
    (still : safe world) :
    (∀ shard ∈ (forShards operation shards world).2.1, shard.Upright safe fits) ∧
      safe (forShards operation shards world).2.2 := by
  induction shards generalizing world with
  | nil => exact ⟨upright, still⟩
  | cons shard rest ih =>
      obtain ⟨own, others⟩ := List.forall_mem_cons.1 upright
      have first := step shard world own still
      rw [forShards]
      generalize operation shard world = outcome at first
      obtain ⟨error | value, next, behind⟩ := outcome
      · exact ⟨List.forall_mem_cons.2 ⟨first.upright, others⟩, first.safe⟩
      · obtain ⟨later, last⟩ := ih others first.safe
        exact ⟨List.forall_mem_cons.2 ⟨first.upright, later⟩, last⟩

theorem upheld_finish (upright : writer.Upright safe fits) (metadata : Metadata)
    (still : safe world) : Upheld safe fits (writer.finish metadata world) := by
  obtain ⟨shards, last⟩ := upheld_forShards
    (fun _ _ own => Shard.upheld_finish own metadata) upright still
  exact ⟨shards, last⟩

theorem upheld_write (upright : writer.Upright safe fits) (tile : Tile) (data : Option Bytes)
    (still : safe world) : Upheld safe fits (writer.write tile data world) := by
  unfold write
  dsimp only
  split
  · exact ⟨upright, still⟩
  next shard found =>
    have taken := Shard.upheld_write (upright shard (List.mem_of_getElem? found)) tile data still
    have others (index : Nat) (next : Shard σ η) (own : next.Upright safe fits) :
        ∀ other ∈ writer.shards.set index next, other.Upright safe fits := by
      intro other member
      rcases List.mem_or_eq_of_mem_set member with old | rfl
      · exact upright other old
      · exact own
    generalize shard.write tile data world = outcome at taken
    obtain ⟨error | _, next, behind⟩ := outcome
    · exact ⟨others _ next taken.upright, taken.safe⟩
    · exact ⟨others _ next taken.upright, taken.safe⟩

end ArchiveWriter

/-! ### Tiles -/

namespace TileWriting

variable {ρ : Type} {writer : ArchiveWriter σ η}

open ArchiveWriter

end TileWriting
end TileBindery
