import Mathlib.Algebra.Ring.Nat
import TileBindery.Pipeline.TileSink
import TileBindery.Proofs.Pipeline.Batches

/-!
# Batches and single tiles

Rendering tiles in batches, in whatever order a pool comes to them, hands the same calls to an archive
as rendering them one at a time, if all of them can be rendered.  If one cannot, the tiles of the whole
batches in front of it are handed over, and the archive is not finished.
-/

namespace TileBindery

variable {σ η ω ρ : Type} {profile : Profile ρ}

open TileWriting

namespace TileWriting

/-- What some groups fail with is the error of one of them. -/
theorem error_of_renderAll {groups : List TileFeatures} {error : PipelineError}
    (refused : renderAll profile groups = .error error) :
    ∃ failed ∈ groups, profile.renderChecked failed = .error error := by
  induction groups with
  | nil => cases refused
  | cons group rest ih =>
      rw [renderAll] at refused
      cases checked : profile.renderChecked group with
      | error own =>
          rw [checked] at refused
          cases refused
          exact ⟨group, List.mem_cons_self, checked⟩
      | ok tile =>
          rw [checked] at refused
          cases behind : renderAll profile rest with
          | ok others =>
              rw [behind] at refused
              cases refused
          | error other =>
              rw [behind] at refused
              cases refused
              obtain ⟨failed, member, own⟩ := ih behind
              exact ⟨failed, List.mem_cons_of_mem _ member, own⟩

/-- Groups that are rendered, and their tiles. -/
theorem map_of_renders {groups : List TileFeatures} {made : List (TileFeatures × RenderedTile)}
    (renders : List.Forall₂ profile.Renders (groups.map .ok) made) :
    groups = made.map (·.1) ∧ groups.map profile.renderChecked = (made.map (·.2)).map .ok := by
  obtain ⟨same, each⟩ := forall₂_renders_iff.1 renders
  obtain rfl : groups = made.map (·.1) :=
    List.map_injective_iff.2 (fun _ _ => Except.ok.inj) same
  refine ⟨rfl, ?_⟩
  rw [List.map_map, List.map_map]
  exact List.map_congr_left fun tile member => Profile.renderChecked_iff.2 (each tile member)

theorem renders_of_map {groups : List TileFeatures} {tiles : List RenderedTile}
    (each : groups.map profile.renderChecked = tiles.map .ok) :
    List.Forall₂ profile.Renders (groups.map .ok) (groups.zip tiles) := by
  induction groups generalizing tiles with
  | nil => exact .nil
  | cons group rest ih =>
      cases tiles with
      | nil => cases each
      | cons tile others =>
          rw [List.map_cons, List.map_cons, List.cons.injEq] at each
          exact .cons ⟨rfl, Profile.renderChecked_iff.1 each.1⟩ (ih each.2)

end TileWriting

namespace Rendering

/-- Tiles that are rendered one behind another. -/
def inOrder (profile : Profile ρ) : Rendering profile where
  render groups := (renderAll profile groups).map (List.map (·.2))
  render_ok {groups tiles} each := by
    have length : groups.length = tiles.length := by simpa using congrArg List.length each
    rw [renderAll_iff.2 (renders_of_map each), Except.map, List.map_snd_zip (Nat.le_of_eq length.symm)]
  render_error {groups failed error} member refused := by
    cases rendered : renderAll profile groups with
    | error other =>
        obtain ⟨first, first_mem, own⟩ := error_of_renderAll rendered
        exact ⟨first, first_mem, other, own, rfl⟩
    | ok made =>
        have checked : profile.renderChecked failed ∈ (made.map (·.2)).map .ok := by
          rw [← (map_of_renders (renderAll_iff.1 rendered)).2]
          exact List.mem_map_of_mem member
        obtain ⟨_, -, fine⟩ := List.mem_map.1 checked
        cases fine.trans refused

variable {rendering : Rendering profile}

/-- A pool renders what can be rendered one behind another. -/
theorem render_of_renders (rendering : Rendering profile)
    {items : List (Except SortError TileFeatures)} {made : List (TileFeatures × RenderedTile)}
    (renders : List.Forall₂ profile.Renders items made) :
    gather items = .ok (made.map (·.1)) ∧ rendering.render (made.map (·.1)) = .ok (made.map (·.2)) := by
  obtain ⟨rfl, -⟩ := forall₂_renders_iff.1 renders
  exact ⟨gather_map_ok _, rendering.render_ok (map_of_renders renders).2⟩

/-- It fails where they cannot be rendered one behind another. -/
theorem render_of_refused (rendering : Rendering profile) {groups : List TileFeatures}
    {error : PipelineError} (refused : renderAll profile groups = .error error) :
    ∃ other, rendering.render groups = .error other := by
  obtain ⟨failed, member, own⟩ := error_of_renderAll refused
  obtain ⟨-, -, other, -, fails⟩ := rendering.render_error member own
  exact ⟨other, fails⟩

end Rendering

namespace TileSink

variable {sink : TileSink ω} {made : List (TileFeatures × RenderedTile)}

/-! ### Tiles in order -/

theorem writeRendered_append (emitEmptyTiles : Bool)
    (front back : List (TileFeatures × RenderedTile)) (progress : TileProgress) (state : ω) :
    sink.writeRendered emitEmptyTiles (front ++ back) progress state =
      match sink.writeRendered emitEmptyTiles front progress state with
      | (.error error, state) => (.error error, state)
      | (.ok progress, state) => sink.writeRendered emitEmptyTiles back progress state := by
  induction front generalizing progress state with
  | nil => rfl
  | cons made rest ih =>
      obtain ⟨group, rendered⟩ := made
      rw [List.cons_append, writeRendered, writeRendered]
      cases sink.writeOne emitEmptyTiles group rendered progress state with
      | mk result after =>
          cases result with
          | error error => rfl
          | ok progress => exact ih progress after

/-- One at a time, groups that can be rendered are rendered and written. -/
theorem writeEach_of_renders {groups : List (Except SortError TileFeatures)}
    (renders : List.Forall₂ profile.Renders groups made) (emitEmptyTiles : Bool)
    (progress : TileProgress) (state : ω) :
    sink.writeEach profile emitEmptyTiles groups progress state =
      sink.writeRendered emitEmptyTiles made progress state := by
  induction renders generalizing progress state with
  | nil => rfl
  | @cons item made rest others first behind ih =>
      obtain ⟨group, rendered⟩ := made
      obtain ⟨rfl, tile⟩ := first
      rw [writeEach, writeRendered]
      simp only [Profile.renderChecked_iff.2 tile]
      cases sink.writeOne emitEmptyTiles group rendered progress state with
      | mk result after =>
          cases result with
          | error error => rfl
          | ok progress => exact ih progress after

/-- Whatever a pool does, the tiles of the batches in front of one that is refused are written. -/
theorem writeBatches_eq_handed (sink : TileSink ω) (rendering : Rendering profile)
    (options : TileOptions) (groups : List (Except SortError TileFeatures)) (progress : TileProgress)
    (state : ω) :
    ∃ failure : Option PipelineError,
      (failure = none ↔ refusal profile options.batchSize groups = none) ∧
      sink.writeBatches rendering options groups progress state =
        match sink.writeRendered options.emitEmptyTiles (handed profile options.batchSize groups)
          progress state with
        | (.error error, state) => (.error error, state)
        | (.ok after, state) => (failure.elim (.ok after) .error, state) := by
  induction groups using handed.induct profile options.batchSize generalizing progress state with
  | case1 =>
      refine ⟨none, ?_, ?_⟩
      · rw [refusal]
      · rw [writeBatches, handed, writeRendered]
        rfl
  | case2 first rest error refused =>
      rw [handed_of_error refused, refusal_of_error refused, writeBatches, writeRendered]
      rw [renderBatch] at refused
      cases gathered : gather (first :: rest.take (options.batchSize - 1)) with
      | error error => exact ⟨some error, by simp, rfl⟩
      | ok groups =>
          rw [gathered] at refused
          obtain ⟨error, fails⟩ := rendering.render_of_refused refused
          refine ⟨some error, by simp, ?_⟩
          simp only [fails]
          rfl
  | case3 first rest batch batched ih =>
      obtain ⟨gathered, rendered⟩ := rendering.render_of_renders (renderBatch_iff.1 batched)
      have zipped : (batch.map (·.1)).zip (batch.map (·.2)) = batch := (List.zip_of_prod rfl rfl).symm
      rw [handed_of_ok batched, refusal_of_ok batched, writeBatches]
      simp only [gathered, rendered, zipped, writeRendered_append]
      cases sink.writeRendered options.emitEmptyTiles batch progress state with
      | mk result after =>
          cases result with
          | ok progress => exact ih progress after
          | error error =>
              -- which error the batches behind would end with does not matter
              obtain ⟨failure, alike, -⟩ := ih progress state
              exact ⟨failure, alike, rfl⟩

/-- If all groups can be rendered, batches make no difference. -/
theorem writeBatches_of_renders {groups : List (Except SortError TileFeatures)}
    (renders : List.Forall₂ profile.Renders groups made) (rendering : Rendering profile)
    (options : TileOptions) (progress : TileProgress) (state : ω) :
    sink.writeBatches rendering options groups progress state =
      sink.writeRendered options.emitEmptyTiles made progress state := by
  have accepted : refusal profile options.batchSize groups = none := refusal_of_renders renders
  obtain ⟨failure, alike, batches⟩ :=
    sink.writeBatches_eq_handed rendering options groups progress state
  obtain rfl := alike.2 accepted
  have same := renders_unique (forall₂_handed accepted) renders
  rw [batches, same]
  cases sink.writeRendered options.emitEmptyTiles made progress state with
  | mk result after => cases result <;> rfl

/-- So a whole archive is written as if each tile was rendered on its own. -/
theorem writeTiles_eq_writeSingly {groups : List (Except SortError TileFeatures)}
    (renders : List.Forall₂ profile.Renders groups made) (rendering : Rendering profile)
    (options : TileOptions) (state : ω) :
    sink.writeTiles rendering options groups state =
      sink.writeSingly profile options.emitEmptyTiles groups state := by
  have same : sink.writeBatches rendering options groups =
      sink.writeEach profile options.emitEmptyTiles groups := by
    funext progress state
    rw [writeBatches_of_renders renders, writeEach_of_renders renders]
  rw [writeTiles, writeSingly, same]

/-! ### Sinks that do not fail -/

/-- A sink that answers no call with an error. -/
def Steady (sink : TileSink ω) : Prop := ∀ call state, (sink call state).1 = .ok ()

/-- The state of a sink behind some calls. -/
def after (sink : TileSink ω) (calls : List SinkCall) (state : ω) : ω :=
  calls.foldl (fun state call => (sink call state).2) state

theorem after_append (front back : List SinkCall) (state : ω) :
    sink.after (front ++ back) state = sink.after back (sink.after front state) :=
  List.foldl_append

theorem Steady.call (steady : sink.Steady) (call : SinkCall) (state : ω) :
    sink call state = (.ok (), sink.after [call] state) :=
  Prod.ext (steady call state) rfl

/-- The calls that hand over tiles, up to those that are left out. -/
def writes (emitEmptyTiles : Bool) (made : List (TileFeatures × RenderedTile)) : List SinkCall :=
  (kept emitEmptyTiles (made.map (·.2))).map .write

/-- What is known once some tiles have been rendered and written. -/
structure Counted (emitEmptyTiles : Bool) (made : List (TileFeatures × RenderedTile))
    (progress after : TileProgress) : Prop where
  passed : Passed emitEmptyTiles (made.map (·.2)) progress after
  /-- Every feature has been counted. -/
  features : after.counts.features =
    progress.counts.features + (made.map fun tile => tile.1.features.length).sum

theorem Counted.cons {emitEmptyTiles : Bool} {first : TileFeatures × RenderedTile}
    {progress middle last : TileProgress} (one : Counted emitEmptyTiles [first] progress middle)
    (rest : Counted emitEmptyTiles made middle last) :
    Counted emitEmptyTiles (first :: made) progress last where
  passed := one.passed.trans rest.passed
  features := by
    have front := one.features
    have back := rest.features
    simp only [List.map_cons, List.map_nil, List.sum_cons, List.sum_nil] at front ⊢
    omega

/-- A tile is written unless it is left out, and counted in either case. -/
theorem writeOne_steady (steady : sink.Steady) (emitEmptyTiles : Bool)
    (first : TileFeatures × RenderedTile) (progress : TileProgress) (state : ω) :
    ∃ last, sink.writeOne emitEmptyTiles first.1 first.2 progress state =
        (.ok last, sink.after (writes emitEmptyTiles [first]) state) ∧
      Counted emitEmptyTiles [first] progress last := by
  obtain ⟨group, tile⟩ := first
  rw [writeOne]
  by_cases out : tile.data.isNone ∧ ¬emitEmptyTiles
  · have none_kept := kept_of_out out
    rw [if_pos out, writes, List.map_cons, List.map_nil, none_kept]
    exact ⟨_, rfl, .skip none_kept group progress, rfl⟩
  · have own_kept := kept_of_not_out out
    rw [if_neg out, writes, List.map_cons, List.map_nil, own_kept, steady.call]
    exact ⟨_, rfl, .wrote own_kept group progress, rfl⟩

theorem writeRendered_steady (steady : sink.Steady) (emitEmptyTiles : Bool)
    (made : List (TileFeatures × RenderedTile)) (progress : TileProgress) (state : ω) :
    ∃ last, sink.writeRendered emitEmptyTiles made progress state =
        (.ok last, sink.after (writes emitEmptyTiles made) state) ∧
      Counted emitEmptyTiles made progress last := by
  induction made generalizing progress state with
  | nil => exact ⟨progress, rfl, ⟨rfl, rfl, rfl⟩, rfl⟩
  | cons first rest ih =>
      obtain ⟨middle, one, counted⟩ := writeOne_steady steady emitEmptyTiles first progress state
      obtain ⟨last, others, counted'⟩ := ih middle (sink.after (writes emitEmptyTiles [first]) state)
      have calls : writes emitEmptyTiles (first :: rest) =
          writes emitEmptyTiles [first] ++ writes emitEmptyTiles rest := by
        rw [writes, writes, writes, ← List.map_append, ← kept_append, ← List.map_append]
        rfl
      refine ⟨last, ?_, counted.cons counted'⟩
      rw [writeRendered, one, calls, after_append]
      exact others

/-! ### Whole archives -/

/-- The footer of an archive describes the layers of all tiles, also of those that are left out. -/
def footer (profile : Profile ρ) (made : List (TileFeatures × RenderedTile)) : Metadata :=
  (layersOf (made.map (·.2)) .empty).complete profile.metadata

end TileSink

namespace TileWriting

theorem writeRendered_eq_sink (emitEmptyTiles : Bool) (made : List (TileFeatures × RenderedTile))
    (progress : TileProgress) (writer : ArchiveWriter σ η) (world : σ) :
    writeRendered emitEmptyTiles made progress writer world =
      ArchiveWriter.sink.writeRendered emitEmptyTiles made progress (writer, world) := by
  induction made generalizing progress writer world with
  | nil => rfl
  | cons first rest ih =>
      obtain ⟨group, tile⟩ := first
      rw [writeRendered, TileSink.writeRendered, TileSink.writeOne]
      by_cases out : tile.data.isNone ∧ ¬emitEmptyTiles
      · simp only [if_pos out]
        exact ih _ writer world
      · simp only [if_neg out, ArchiveWriter.sink]
        cases writer.write tile.tile tile.data world with
        | mk result after =>
            cases result with
            | error error => rfl
            | ok done => exact ih _ after.1 after.2

theorem writeBatches_eq_sink (options : TileOptions)
    (groups : List (Except SortError TileFeatures)) (progress : TileProgress)
    (writer : ArchiveWriter σ η) (world : σ) :
    writeBatches profile options groups progress writer world =
      ArchiveWriter.sink.writeBatches (.inOrder profile) options groups progress (writer, world) := by
  induction groups using handed.induct profile options.batchSize
    generalizing progress writer world with
  | case1 =>
      rw [writeBatches, TileSink.writeBatches]
  | case2 first rest error refused =>
      rw [writeBatches, TileSink.writeBatches, refused]
      rw [renderBatch] at refused
      cases gathered : gather (first :: rest.take (options.batchSize - 1)) with
      | error other =>
          rw [gathered] at refused
          cases refused
          rfl
      | ok groups =>
          rw [gathered] at refused
          simp only [Rendering.inOrder, refused, Except.map]
  | case3 first rest batch batched ih =>
      have zipped : (batch.map (·.1)).zip (batch.map (·.2)) = batch := (List.zip_of_prod rfl rfl).symm
      obtain ⟨gathered, rendered⟩ :=
        (Rendering.inOrder profile).render_of_renders (renderBatch_iff.1 batched)
      rw [writeBatches, TileSink.writeBatches, batched]
      simp only [gathered, rendered, zipped, writeRendered_eq_sink]
      cases ArchiveWriter.sink.writeRendered options.emitEmptyTiles batch progress (writer, world) with
      | mk result after =>
          cases result with
          | error error => rfl
          | ok middle => exact ih middle after.1 after.2

/-- The function that writes archives of shards is the one that writes to their sink. -/
theorem writeTiles_eq_sink (groups : List (Except SortError TileFeatures)) (profile : Profile ρ)
    (options : TileOptions) (writer : ArchiveWriter σ η) (world : σ) :
    writeTiles groups profile options writer world =
      ArchiveWriter.sink.writeTiles (.inOrder profile) options groups (writer, world) := by
  rw [writeTiles, TileSink.writeTiles, TileSink.enclose, ArchiveWriter.sink]
  cases writer.begin profile.metadata world with
  | mk result after =>
      cases result with
      | error error => rfl
      | ok done =>
          simp only [writeBatches_eq_sink]
          cases ArchiveWriter.sink.writeBatches (.inOrder profile) options groups .start after with
          | mk result after =>
              cases result with
              | error error => rfl
              | ok progress =>
                  simp only [ArchiveWriter.sink]
                  cases after.1.finish (progress.layers.complete profile.metadata) after.2 with
                  | mk result after => cases result <;> rfl

end TileWriting

namespace TileSink

variable {sink : TileSink ω}

/-- Whatever pool renders the tiles and however many make up a batch, the archive and the answer are
those of rendering one tile at a time, if every group can be rendered: header, tiles and footer are
handed over in order, all tiles are counted, and the footer describes the layers of all.  Otherwise
the tiles of the whole batches in front of the first group that cannot be rendered are handed over
behind the header, and no footer. -/
theorem writeTiles_whole_or_cut (steady : sink.Steady) (rendering : Rendering profile)
    {options : TileOptions} (some_tile : 0 < options.batchSize)
    (groups : List (Except SortError TileFeatures)) (state : ω) :
    (∀ (σ η : Type) (writer : ArchiveWriter σ η) (world : σ),
      TileWriting.writeTiles groups profile options writer world =
        ArchiveWriter.sink.writeTiles (.inOrder profile) options groups (writer, world)) ∧
    ((∃ made counts, List.Forall₂ profile.Renders groups made ∧
      sink.writeTiles rendering options groups state =
        sink.writeSingly profile options.emitEmptyTiles groups state ∧
      sink.writeTiles rendering options groups state =
        (.ok (counts, footer profile made),
          sink.after (.begin profile.metadata :: writes options.emitEmptyTiles made ++
            [.finish (footer profile made)]) state) ∧
      counts.written = (kept options.emitEmptyTiles (made.map (·.2))).length ∧
      counts.written + counts.skipped = groups.length ∧
      counts.features = (made.map fun tile => tile.1.features.length).sum) ∨
    ∃ place item made error, groups[place]? = some item ∧ (∀ tile, ¬profile.Renders item tile) ∧
      List.Forall₂ profile.Renders (groups.take place) made ∧
      sink.writeTiles rendering options groups state =
        (.error error,
          sink.after (.begin profile.metadata :: writes options.emitEmptyTiles
            (made.take (place / options.batchSize * options.batchSize))) state)) := by
  refine ⟨fun _ _ => writeTiles_eq_sink groups profile options, ?_⟩
  rcases renders_or_fails profile groups with ⟨made, renders⟩ |
    ⟨place, item, made, found, fails, renders⟩
  · left
    obtain ⟨last, wrote, counted⟩ := writeRendered_steady steady options.emitEmptyTiles made .start
      (sink.after [.begin profile.metadata] state)
    have written := counted.passed.written
    have skipped := counted.passed.skipped
    have all := renders.length_eq
    refine ⟨made, last.counts, renders, writeTiles_eq_writeSingly renders rendering options state,
      ?_, ?_, ?_, ?_⟩
    · rw [writeTiles, enclose, steady.call]
      simp only [writeBatches_of_renders renders, wrote, steady.call, counted.passed.layers]
      rw [after_append]
      rfl
    · exact written.trans (Nat.zero_add _)
    · rw [List.length_map] at skipped
      simp only [TileProgress.start, Nat.zero_add] at written skipped
      omega
    · exact counted.features.trans (Nat.zero_add _)
  · right
    obtain ⟨front, refused⟩ := handed_of_fails some_tile found fails renders
    obtain ⟨failure, alike, batches⟩ := sink.writeBatches_eq_handed rendering options groups
      .start (sink.after [.begin profile.metadata] state)
    obtain ⟨error, rfl⟩ := Option.ne_none_iff_exists'.1 (mt alike.1 refused)
    obtain ⟨last, wrote, -⟩ := writeRendered_steady steady options.emitEmptyTiles
      (made.take (place / options.batchSize * options.batchSize)) .start
      (sink.after [.begin profile.metadata] state)
    refine ⟨place, item, made, error, found, fails, renders, ?_⟩
    rw [front, wrote] at batches
    rw [writeTiles, enclose, steady.call]
    simp only [batches]
    rfl

/-- A profile whose tiles are all empty. -/
def blank : Profile Unit := .ofRenderer "blank" fun group => .ok ⟨group.tile, none, none⟩

/-- In batches of two, a tile in front of an error is given up with its batch. -/
theorem writeTiles_cut_recorder :
    recorder.Steady ∧ 0 < 2 ∧ ∃ error, recorder.writeTiles (.inOrder blank) ⟨2, true⟩
        [.ok ⟨⟨0, 0, 0⟩, [⟨3, [1]⟩]⟩, .error .poisoned] [] =
      (.error error, [.begin blank.metadata]) := by
  have steady : recorder.Steady := fun _ _ => rfl
  have positive : 0 < (TileOptions.mk 2 true).batchSize := by decide
  refine ⟨steady, positive, ?_⟩
  obtain ⟨-, ⟨made, counts, renders, -⟩ | ⟨place, item, made, error, found, fails, -, wrote⟩⟩ :=
    writeTiles_whole_or_cut steady (.inOrder blank) positive
      [.ok ⟨⟨0, 0, 0⟩, [⟨3, [1]⟩]⟩, .error .poisoned] []
  · obtain ⟨same, -⟩ := forall₂_renders_iff.1 renders
    have member : (.error .poisoned : Except SortError TileFeatures) ∈
        (made.map (·.1)).map .ok := by
      rw [← same]
      simp
    obtain ⟨_, -, impossible⟩ := List.mem_map.1 member
    cases impossible
  · refine ⟨error, ?_⟩
    match place with
    | 0 =>
        cases found
        exact absurd ⟨rfl, rfl, rfl⟩ (fails (_, ⟨⟨0, 0, 0⟩, none, none⟩))
    | 1 => exact wrote
    | _ + 2 => cases found

end TileSink
end TileBindery
