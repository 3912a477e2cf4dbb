import TileBindery.Proofs.Pipeline.TileWriting

/-!
# Which tiles are handed to an archive

Groups are rendered batch by batch, and a batch that holds an error or a group that cannot be
rendered is given up whole.  So whatever the archive is and whatever its device does, the tiles that
are handed to it are those of the batches in front: a front of the groups that ends where a batch
ends, or all of them.
-/

namespace TileBindery
namespace TileWriting

variable {σ η ρ : Type}

/-- The tiles that are handed to an archive that takes them, in batches of a size. -/
def handed (profile : Profile ρ) (size : Nat) (groups : List (Except SortError TileFeatures)) :
    List (TileFeatures × RenderedTile) :=
  match groups with
  | [] => []
  | first :: rest =>
      match renderBatch profile (first :: rest.take (size - 1)) with
      | .error _ => []
      | .ok batch => batch ++ handed profile size (rest.drop (size - 1))
  termination_by groups.length
  decreasing_by simp only [List.length_cons, List.length_drop]; omega

/-- What the first batch fails with that cannot be rendered. -/
def refusal (profile : Profile ρ) (size : Nat) (groups : List (Except SortError TileFeatures)) :
    Option PipelineError :=
  match groups with
  | [] => none
  | first :: rest =>
      match renderBatch profile (first :: rest.take (size - 1)) with
      | .error error => some error
      | .ok _ => refusal profile size (rest.drop (size - 1))
  termination_by groups.length
  decreasing_by simp only [List.length_cons, List.length_drop]; omega

variable {profile : Profile ρ} {size : Nat}

section Equations

variable {first : Except SortError TileFeatures} {rest : List (Except SortError TileFeatures)}

theorem handed_of_error {error : PipelineError}
    (refused : renderBatch profile (first :: rest.take (size - 1)) = .error error) :
    handed profile size (first :: rest) = [] := by
  rw [handed, refused]

theorem refusal_of_error {error : PipelineError}
    (refused : renderBatch profile (first :: rest.take (size - 1)) = .error error) :
    refusal profile size (first :: rest) = some error := by
  rw [refusal, refused]

theorem handed_of_ok {batch : List (TileFeatures × RenderedTile)}
    (batched : renderBatch profile (first :: rest.take (size - 1)) = .ok batch) :
    handed profile size (first :: rest) = batch ++ handed profile size (rest.drop (size - 1)) := by
  rw [handed, batched]

theorem refusal_of_ok {batch : List (TileFeatures × RenderedTile)}
    (batched : renderBatch profile (first :: rest.take (size - 1)) = .ok batch) :
    refusal profile size (first :: rest) = refusal profile size (rest.drop (size - 1)) := by
  rw [refusal, batched]

end Equations

/-- Writing some tiles behind others. -/
theorem writeRendered_append (emitEmptyTiles : Bool)
    (front back : List (TileFeatures × RenderedTile)) (progress : TileProgress)
    (writer : ArchiveWriter σ η) (world : σ) :
    writeRendered emitEmptyTiles (front ++ back) progress writer world =
      match writeRendered emitEmptyTiles front progress writer world with
      | (.error error, writer, world) => (.error error, writer, world)
      | (.ok progress, writer, world) =>
          writeRendered emitEmptyTiles back progress writer world := by
  induction front generalizing progress writer world with
  | nil => rfl
  | cons made rest ih =>
      obtain ⟨group, rendered⟩ := made
      rw [List.cons_append, writeRendered, writeRendered]
      by_cases out : rendered.data.isNone ∧ ¬emitEmptyTiles
      · simp only [if_pos out, ih]
      · simp only [if_neg out]
        cases writer.write rendered.tile rendered.data world with
        | mk result after => cases result <;> simp only [ih]

/-- Writing groups batch by batch is handing over these tiles in order, until the archive refuses one,
and then failing as the batch behind them does, if there is one. -/
theorem writeBatches_eq_handed (profile : Profile ρ) (options : TileOptions)
    (groups : List (Except SortError TileFeatures)) (progress : TileProgress)
    (writer : ArchiveWriter σ η) (world : σ) :
    writeBatches profile options groups progress writer world =
      match writeRendered options.emitEmptyTiles (handed profile options.batchSize groups) progress
        writer world with
      | (.error error, writer, world) => (.error error, writer, world)
      | (.ok after, writer, world) =>
          ((refusal profile options.batchSize groups).elim (.ok after) .error, writer, world) := by
  induction groups using handed.induct profile options.batchSize
    generalizing progress writer world with
  | case1 =>
      rw [writeBatches, handed, refusal, writeRendered]
      rfl
  | case2 first rest error refused =>
      rw [writeBatches, handed_of_error refused, refusal_of_error refused, refused, writeRendered]
      rfl
  | case3 first rest batch batched ih =>
      rw [writeBatches, handed_of_ok batched, refusal_of_ok batched, batched, writeRendered_append]
      dsimp only
      cases writeRendered options.emitEmptyTiles batch progress writer world with
      | mk result after =>
          cases result with
          | error error => rfl
          | ok middle => exact ih middle after.1 after.2

/-! ### What is handed over -/

/-- If no batch is refused, tiles of all groups are handed over. -/
theorem forall₂_handed {groups : List (Except SortError TileFeatures)}
    (accepted : refusal profile size groups = none) :
    List.Forall₂ profile.Renders groups (handed profile size groups) := by
  induction groups using handed.induct profile size with
  | case1 =>
      rw [handed]
      exact .nil
  | case2 first rest error refused =>
      rw [refusal_of_error refused] at accepted
      cases accepted
  | case3 first rest batch batched ih =>
      rw [refusal_of_ok batched] at accepted
      rw [handed_of_ok batched]
      have whole : List.Forall₂ profile.Renders
          (first :: rest.take (size - 1) ++ rest.drop (size - 1))
          (batch ++ handed profile size (rest.drop (size - 1))) :=
        List.rel_append (renderBatch_iff.1 batched) (ih accepted)
      rwa [List.cons_append, List.take_append_drop] at whole

/-- If all groups can be rendered, no batch is refused. -/
theorem refusal_of_renders {groups : List (Except SortError TileFeatures)}
    {rendered : List (TileFeatures × RenderedTile)}
    (renders : List.Forall₂ profile.Renders groups rendered) :
    refusal profile size groups = none := by
  induction groups using handed.induct profile size generalizing rendered with
  | case1 => rw [refusal]
  | case2 first rest error refused =>
      have front : List.Forall₂ profile.Renders (first :: rest.take (size - 1))
          (rendered.take (size - 1 + 1)) := List.forall₂_take (size - 1 + 1) renders
      rw [renderBatch_iff.2 front] at refused
      cases refused
  | case3 first rest batch batched ih =>
      rw [refusal_of_ok batched]
      exact ih (List.forall₂_drop (size - 1 + 1) renders)

/-- Tiles of a front of some groups.  If not all groups come to be rendered, the front ends where a
batch ends. -/
structure Front (profile : Profile ρ) (size : Nat)
    (groups : List (Except SortError TileFeatures)) (refused : Option PipelineError)
    (tiles : List (TileFeatures × RenderedTile)) : Prop where
  /-- Each tile is what its group is rendered to. -/
  rendered : ∀ made ∈ tiles, profile.render made.1 = .ok made.2 ∧ made.2.tile = made.1.tile
  /-- The groups come first. -/
  front : (tiles.map (·.1)).map .ok <+: groups
  /-- Without a refusal none is left. -/
  all : refused = none → (tiles.map (·.1)).map .ok = groups
  /-- With one, batches are handed over whole. -/
  whole : refused ≠ none → size ∣ tiles.length ∧ (tiles.map (·.1)).map .ok ≠ groups

/-- Where nothing can be rendered. -/
theorem Front.refused {first : Except SortError TileFeatures}
    {rest : List (Except SortError TileFeatures)} (error : PipelineError) :
    Front profile size (first :: rest) (some error) [] where
  rendered := by simp
  front := List.nil_prefix
  all := nofun
  whole _ := ⟨Nat.dvd_zero size, nofun⟩

/-- A batch that is rendered comes before those behind it. -/
theorem Front.behind {batch tiles : List (TileFeatures × RenderedTile)}
    {first : Except SortError TileFeatures} {rest : List (Except SortError TileFeatures)}
    {refused : Option PipelineError} (some_tile : 0 < size)
    (renders : List.Forall₂ profile.Renders (first :: rest.take (size - 1)) batch)
    (behind : Front profile size (rest.drop (size - 1)) refused tiles) :
    Front profile size (first :: rest) refused (batch ++ tiles) := by
  obtain ⟨taken, rendered⟩ := forall₂_renders_iff.1 renders
  have cut : first :: rest = (batch.map (·.1)).map .ok ++ rest.drop (size - 1) := by
    rw [← taken, List.cons_append, List.take_append_drop]
  rw [cut]
  refine ⟨?_, ?_, ?_, ?_⟩
  · intro made member
    rcases List.mem_append.1 member with own | later
    · exact rendered made own
    · exact behind.rendered made later
  · rw [List.map_append, List.map_append]
    exact (List.prefix_append_right_inj _).2 behind.front
  · intro none
    rw [List.map_append, List.map_append, behind.all none]
  · intro failed
    obtain ⟨divides, left⟩ := behind.whole failed
    rw [List.map_append, List.map_append]
    refine ⟨?_, fun same => left (List.append_cancel_left same)⟩
    -- groups are left, so the batch is a full one
    have full : size - 1 < rest.length := by
      by_contra short
      have nothing : rest.drop (size - 1) = [] := List.drop_of_length_le (Nat.not_lt.1 short)
      have front := behind.front
      rw [nothing] at front left
      exact left (List.prefix_nil.1 front)
    have length : batch.length = size := by
      rw [← renders.length_eq, List.length_cons, List.length_take,
        Nat.min_eq_left (Nat.le_of_lt full)]
      omega
    rw [List.length_append, length]
    exact Nat.dvd_add (Nat.dvd_refl size) divides

/-- What is handed over are the tiles of a front of the groups. -/
theorem front_handed (some_tile : 0 < size) (groups : List (Except SortError TileFeatures)) :
    Front profile size groups (refusal profile size groups) (handed profile size groups) := by
  induction groups using handed.induct profile size with
  | case1 =>
      rw [handed, refusal]
      exact ⟨by simp, List.nil_prefix, fun _ => rfl, fun failed => absurd rfl failed⟩
  | case2 first rest error refused =>
      rw [handed_of_error refused, refusal_of_error refused]
      exact .refused error
  | case3 first rest batch batched ih =>
      rw [handed_of_ok batched, refusal_of_ok batched]
      exact .behind some_tile (renderBatch_iff.1 batched) ih

/-- Behind the tiles that are handed over, the next batch is refused as before. -/
theorem refusal_drop (profile : Profile ρ) (size : Nat)
    (groups : List (Except SortError TileFeatures)) :
    refusal profile size (groups.drop (handed profile size groups).length) =
      refusal profile size groups := by
  induction groups using handed.induct profile size with
  | case1 => rw [List.drop_nil]
  | case2 first rest error refused =>
      rw [handed_of_error refused]
      rfl
  | case3 first rest batch batched ih =>
      have length := (renderBatch_iff.1 batched).length_eq
      have skip : (first :: rest).drop batch.length = rest.drop (size - 1) := by
        rw [← length, List.length_cons, List.drop_succ_cons, List.length_take,
          List.drop_eq_drop_iff]
        omega
      rw [handed_of_ok batched, refusal_of_ok batched, List.length_append, ← List.drop_drop, skip]
      exact ih

/-! ### Groups that cannot be rendered -/

/-- A stream has one rendering at most. -/
theorem renders_unique {items : List (Except SortError TileFeatures)}
    {made others : List (TileFeatures × RenderedTile)}
    (renders : List.Forall₂ profile.Renders items made)
    (again : List.Forall₂ profile.Renders items others) : made = others := by
  refine List.right_unique_forall₂' ?_ renders again
  rintro item ⟨group, tile⟩ ⟨other, rendered⟩ ⟨rfl, own, -⟩ ⟨same, own', -⟩
  cases same
  cases own.symm.trans own'
  rfl

/-- All groups of a stream can be rendered, or there is a first that cannot. -/
theorem renders_or_fails (profile : Profile ρ) (items : List (Except SortError TileFeatures)) :
    (∃ made, List.Forall₂ profile.Renders items made) ∨
      ∃ place item made, items[place]? = some item ∧ (∀ tile, ¬profile.Renders item tile) ∧
        List.Forall₂ profile.Renders (items.take place) made := by
  induction items with
  | nil => exact .inl ⟨[], .nil⟩
  | cons item rest ih =>
      by_cases own : ∃ tile, profile.Renders item tile
      · obtain ⟨tile, own⟩ := own
        rcases ih with ⟨made, renders⟩ | ⟨place, failed, made, found, fails, renders⟩
        · exact .inl ⟨tile :: made, .cons own renders⟩
        · exact .inr ⟨place + 1, failed, tile :: made, found, fails, .cons own renders⟩
      · exact .inr ⟨0, item, [], rfl, not_exists.1 own, .nil⟩

/-- Tiles are handed over in whole batches in front of the first group that cannot be rendered. -/
theorem handed_of_fails {place : Nat} (some_tile : 0 < size)
    {items : List (Except SortError TileFeatures)} {item : Except SortError TileFeatures}
    {made : List (TileFeatures × RenderedTile)} (found : items[place]? = some item)
    (fails : ∀ tile, ¬profile.Renders item tile)
    (renders : List.Forall₂ profile.Renders (items.take place) made) :
    handed profile size items = made.take (place / size * size) ∧
      refusal profile size items ≠ none := by
  obtain ⟨more, rfl⟩ := Nat.exists_eq_add_one.2 some_tile
  induction items using handed.induct profile (more + 1) generalizing place made with
  | case1 => cases found
  | case2 first rest error refused =>
      rw [handed_of_error refused, refusal_of_error refused]
      refine ⟨?_, nofun⟩
      have early : place < more + 1 := by
        by_contra late
        have batch := List.forall₂_take (more + 1) renders
        rw [List.take_take, Nat.min_eq_left (Nat.not_lt.1 late)] at batch
        cases refused.symm.trans (renderBatch_iff.2 batch)
      rw [Nat.div_eq_of_lt early, Nat.zero_mul, List.take_zero]
  | case3 first rest batch batched ih =>
      have front : List.Forall₂ profile.Renders ((first :: rest).take (more + 1)) batch :=
        renderBatch_iff.1 batched
      have late : more + 1 ≤ place := by
        by_contra early
        have member : item ∈ (first :: rest).take (more + 1) :=
          List.mem_of_getElem? ((List.getElem?_take_of_lt (Nat.not_le.1 early)).trans found)
        obtain ⟨same, each⟩ := forall₂_renders_iff.1 front
        rw [same, List.map_map] at member
        obtain ⟨tile, tile_mem, rfl⟩ := List.mem_map.1 member
        exact fails tile ⟨rfl, each tile tile_mem⟩
      obtain ⟨beyond, rfl⟩ := Nat.exists_eq_add_of_le late
      have whole := List.forall₂_take (more + 1) renders
      rw [List.take_take, Nat.min_eq_left late] at whole
      have behind := List.forall₂_drop (more + 1) renders
      rw [List.drop_take, Nat.add_sub_cancel_left] at behind
      have found' : (rest.drop more)[beyond]? = some item := by
        rw [List.getElem?_drop, ← found, Nat.add_right_comm, List.getElem?_cons_succ]
      obtain ⟨others, refused⟩ := ih found' behind
      rw [handed_of_ok batched, refusal_of_ok batched]
      refine ⟨?_, refused⟩
      rw [others, renders_unique front whole, ← List.take_add, Nat.add_div_left _ some_tile,
        Nat.succ_mul, Nat.add_comm]

/-! ### Archives on a disk -/

variable {config : ArchiveConfig} {base : String} {disk : Disk}

open ArchiveWriter

/-- The contents of a shard's file when an archive is not finished: header and tiles. -/
def partOctets (config : ArchiveConfig) (metadata : Metadata) (emitEmptyTiles : Bool)
    (tiles : List RenderedTile) (index : Nat) : Bytes :=
  (config.headerPieces metadata).flatten ++ shardOctets config (kept emitEmptyTiles tiles) index

/-- What an archive is that is not finished. -/
structure Unfinished (config : ArchiveConfig) (base : String) (metadata : Metadata)
    (emitEmptyTiles : Bool) (tiles : List RenderedTile) (error : PipelineError)
    (outcome : Outcome Disk OpenFile (TileCounts × Metadata)) : Prop where
  /-- Some batch is refused. -/
  failed : outcome.1 = .error error
  /-- Once it is let go, every shard's file holds its part of the tiles in front. -/
  shards : ∀ index < config.shards,
    (outcome.2.1.release outcome.2.2).read (Path.ofText (Routing.shardPath base index)) =
      .ok (partOctets config metadata emitEmptyTiles tiles index)

/-- An archive gets the tiles that are handed over, and is finished exactly if no batch is refused.
It gets no tile at all if the device refuses. -/
theorem writeTiles_handed (some_shard : 0 < config.shards)
    (vacant : config.append = true → Vacant base disk 0 config.shards) (profile : Profile ρ)
    (options : TileOptions) (groups : List (Except SortError TileFeatures)) :
    (∃ reason failed behind,
        writeTiles groups profile options ⟨unused config base 0 config.shards, 0⟩ disk =
          (.error (.archive (.device reason)), failed, behind) ∧
        (Vacant base disk 0 config.shards →
          Bare config base profile.metadata (failed.release behind))) ∨
      (refusal profile options.batchSize groups = none ∧
        Archived config base profile.metadata options.emitEmptyTiles
          ((handed profile options.batchSize groups).map (·.2))
          (writeTiles groups profile options ⟨unused config base 0 config.shards, 0⟩ disk)) ∨
      ∃ error, refusal profile options.batchSize groups = some error ∧
        Unfinished config base profile.metadata options.emitEmptyTiles
          ((handed profile options.batchSize groups).map (·.2)) error
          (writeTiles groups profile options ⟨unused config base 0 config.shards, 0⟩ disk) := by
  rw [writeTiles]
  rcases begin_unused profile.metadata 0 vacant with ⟨reason, failed, behind, refused, bare⟩ |
    ⟨opened, begun, done, holds⟩
  · left
    refine ⟨reason, failed, behind, ?_, bare⟩
    rw [refused]
  · right
    have wrote := wrote_writeRendered some_shard holds options.emitEmptyTiles
      (handed profile options.batchSize groups) .start
    rw [done]
    dsimp only
    rw [writeBatches_eq_handed]
    generalize writeRendered _ _ .start opened begun = outcome at wrote
    obtain ⟨result, writer, behind⟩ := outcome
    obtain ⟨⟨progress, rfl, passed⟩, after⟩ := wrote
    dsimp only at after ⊢
    cases refusal profile options.batchSize groups with
    | some error => exact .inr ⟨error, rfl, rfl, after.release⟩
    | none =>
        obtain ⟨files, closed, last, finished, archived⟩ := archived_finish passed after
        dsimp only [Option.elim_none]
        rw [finished]
        exact .inl ⟨rfl, archived⟩

end TileWriting
end TileBindery
