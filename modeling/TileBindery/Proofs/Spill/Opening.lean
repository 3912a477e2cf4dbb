import TileBindery.Proofs.Spill.Merging
import TileBindery.Spill.Frame.Reader

/-!
# Starting a merge

A merge starts when every chunk file can be opened and its first feature can be read.  It then
stands for all features that can be read of the files and for those in memory, and hands them out in
order: by key, then by the number of the run, then by position.  The main statement says so for any
files, however they are damaged, whose readable features ascend.
-/

namespace TileBindery
namespace Merge

open PlacedFeature

theorem prime_fails_iff {disk : Disk} {runs : List Run} :
    (∃ error, (prime disk runs).1 = .error error) ↔
      ∃ run ∈ runs, ∃ error, (run.next disk).1 = .error error := by
  induction runs generalizing disk with
  | nil => simp [prime]
  | cons run rest ih =>
      simp only [prime, List.exists_mem_cons_iff]
      cases taken : run.next disk with
      | mk result after =>
          match result with
          | .error error => simp
          | .ok none =>
              have same : (after.drop disk).files = disk.files := Run.files_drop after disk
              simp only [ih, Run.next_congr same, reduceCtorEq, exists_false, false_or]
          | .ok (some feature) =>
              simp only [reduceCtorEq, exists_false, false_or, ← ih]
              cases (prime disk rest).1 <;> simp [Except.map]

/-- A merge that has read the first feature of every run stands for all features of the runs. -/
theorem stands_of_prime {disk after : Disk} {runs : List Run} {sources : List MergeSource}
    (h : prime disk runs = (.ok sources, after)) (number : Nat) :
    after.files = disk.files ∧
      ∃ tapes, List.Forall₂ (MergeSource.StandsFor disk) sources tapes ∧
        tapes.flatten = placeAll number (runs.map (Run.contents disk)) ∧
        ∀ tape ∈ tapes, ∃ run ∈ runs, ∃ number,
          tape = place number (run.contents disk).fault 0 (run.contents disk).features := by
  induction runs generalizing disk sources number with
  | nil =>
      cases h
      exact ⟨rfl, [], .nil, rfl, by simp⟩
  | cons run rest ih =>
      simp only [prime] at h
      cases taken : run.next disk with
      | mk result behind =>
          match result with
          | .error error => simp [taken] at h
          | .ok none =>
              simp only [taken] at h
              have same : (behind.drop disk).files = disk.files := Run.files_drop behind disk
              obtain ⟨files, tapes, stand, flat, shape⟩ := ih h (number + 1)
              rw [show Run.contents (behind.drop disk) = Run.contents disk from
                funext (Run.contents_congr same)] at flat shape
              refine ⟨files.trans same, tapes, stand.imp fun _ _ stands => stands.congr same.symm,
                ?_, ?_⟩
              · rw [flat, List.map_cons, placeAll, Run.contents_of_none taken]
                rfl
              · intro tape member
                obtain ⟨other, other_mem, found⟩ := shape tape member
                exact ⟨other, List.mem_cons_of_mem _ other_mem, found⟩
          | .ok (some feature) =>
              simp only [taken] at h
              cases primed : prime disk rest with
              | mk outcome left =>
                  cases outcome with
                  | error error => simp [primed, Except.map] at h
                  | ok others =>
                      simp only [primed, Except.map, Prod.mk.injEq, Except.ok.injEq] at h
                      obtain ⟨rfl, rfl⟩ := h
                      obtain ⟨files, tapes, stand, flat, shape⟩ := ih primed (number + 1)
                      have contents := Run.contents_of_some taken
                      refine ⟨files, _ :: tapes, .cons ⟨number, 0, rfl⟩ stand, ?_, ?_⟩
                      · rw [List.flatten_cons, flat, List.map_cons, placeAll, contents]
                        rfl
                      · intro tape member
                        rcases List.mem_cons.1 member with rfl | member
                        · exact ⟨run, List.mem_cons_self, number, by rw [contents]; rfl⟩
                        · obtain ⟨other, other_mem, found⟩ := shape tape member
                          exact ⟨other, List.mem_cons_of_mem _ other_mem, found⟩

section

variable [Codec]

theorem exists_of_openChunks_error {disk : Disk} {chunks : List Chunk} {error : SortError}
    (h : openChunks disk chunks = .error error) :
    ∃ chunk ∈ chunks, ∃ reason, ChunkReader.openPath chunk.path disk = .error reason := by
  induction chunks with
  | nil => simp [openChunks] at h
  | cons chunk rest ih =>
      simp only [openChunks] at h
      split at h
      next reason opened => exact ⟨chunk, List.mem_cons_self, reason, opened⟩
      next reader opened =>
        cases behind : openChunks disk rest with
        | error reason =>
            obtain ⟨other, member, found⟩ := ih (by
              rw [behind] at h ⊢
              exact h)
            exact ⟨other, List.mem_cons_of_mem _ member, found⟩
        | ok runs => simp [behind, Except.map] at h

theorem forall₂_of_openChunks {disk : Disk} {chunks : List Chunk} {runs : List Run}
    (h : openChunks disk chunks = .ok runs) :
    List.Forall₂ (fun chunk run => ∃ reader,
      ChunkReader.openPath chunk.path disk = .ok reader ∧ run = .chunk chunk reader)
      chunks runs := by
  induction chunks generalizing runs with
  | nil =>
      cases h
      exact .nil
  | cons chunk rest ih =>
      simp only [openChunks] at h
      split at h
      next => simp at h
      next reader opened =>
        cases behind : openChunks disk rest with
        | error reason => simp [behind, Except.map] at h
        | ok others =>
            simp only [behind, Except.map, Except.ok.injEq] at h
            subst h
            exact .cons ⟨reader, opened, rfl⟩ (ih behind)

theorem contents_of_openChunks {disk : Disk} {chunks : List Chunk} {runs : List Run}
    (h : openChunks disk chunks = .ok runs) :
    runs.map (Run.contents disk) = chunks.map (Chunk.contents disk) := by
  have opened := forall₂_of_openChunks h
  clear h
  induction opened with
  | nil => rfl
  | @cons chunk run chunks runs related _ ih =>
      obtain ⟨reader, found, rfl⟩ := related
      rw [List.map_cons, List.map_cons, ih, Chunk.contents, found]
      rfl

theorem run_ascending {disk : Disk} {chunks : List Chunk} {residual : List Feature}
    {runs : List Run} (opened : openChunks disk chunks = .ok runs)
    (chunks_ascend : ∀ chunk ∈ chunks,
      (chunk.contents disk).features.Pairwise fun a b => a.key ≤ b.key)
    (residual_ascends : residual.Pairwise fun a b => a.key ≤ b.key) :
    ∀ run ∈ runs ++ [.memory residual],
      (run.contents disk).features.Pairwise fun a b => Sorter.keyOf a ≤ Sorter.keyOf b := by
  intro run member
  have ascends : (run.contents disk).features.Pairwise fun a b => a.key ≤ b.key := by
    rcases List.mem_append.1 member with stored | buffered
    · have found := List.mem_map_of_mem (f := Run.contents disk) stored
      rw [contents_of_openChunks opened] at found
      obtain ⟨chunk, chunk_mem, equal⟩ := List.mem_map.1 found
      exact equal ▸ chunks_ascend chunk chunk_mem
    · obtain rfl := List.mem_singleton.1 buffered
      exact residual_ascends
  exact ascends.imp fun le => UInt64.le_iff_toNat_le.1 le

/-- A merge that has started hands out all features that can be read of its runs in order, up to the
first behind which a run cannot be read on. -/
theorem yields_ofRuns {disk after : Disk} {chunks : List Chunk} {residual : List Feature}
    {merge : Merge} (started : ofRuns chunks residual disk = (.ok merge, after))
    (chunks_ascend : ∀ chunk ∈ chunks,
      (chunk.contents disk).features.Pairwise fun a b => a.key ≤ b.key)
    (residual_ascends : residual.Pairwise fun a b => a.key ≤ b.key) :
    merge.Yields after (handOut (inOrder
      (placeAll 0 (chunks.map (Chunk.contents disk) ++ [⟨residual, none⟩])))) := by
  rw [ofRuns] at started
  split at started
  next => simp at started
  next runs opened =>
    split at started
    next => simp at started
    next sources left primed =>
      cases started
      obtain ⟨files, tapes, stand, flat, shape⟩ := stands_of_prime primed 0
      rw [List.map_append, contents_of_openChunks opened] at flat
      refine .merging rfl rfl (stand.imp fun _ _ stands => stands.congr files) ?_ ?_
      · intro tape member
        obtain ⟨run, run_mem, number, rfl⟩ := shape tape member
        exact pairwise_place (run_ascending opened chunks_ascend residual_ascends run run_mem)
      · rw [flat]
        exact stableOrder_inOrder (before_placeAll 0 _)

theorem ofRuns_fails_iff {disk : Disk} {chunks : List Chunk} {residual : List Feature} :
    (∃ error, (ofRuns chunks residual disk).1 = .error error) ↔
      ∃ chunk ∈ chunks, chunk.Unreadable disk := by
  rw [ofRuns]
  cases opened : openChunks disk chunks with
  | error error =>
      obtain ⟨chunk, member, reason, found⟩ := exists_of_openChunks_error opened
      exact ⟨fun _ => ⟨chunk, member, .inl ⟨reason, found⟩⟩, fun _ => ⟨error, rfl⟩⟩
  | ok runs =>
      have related := forall₂_of_openChunks opened
      have fails : (∃ error, (prime disk (runs ++ [.memory residual])).1 = .error error) ↔ _ :=
        prime_fails_iff
      trans ∃ error, (prime disk (runs ++ [.memory residual])).1 = .error error
      · cases primed : prime disk (runs ++ [.memory residual]) with
        | mk result after => cases result <;> simp [primed]
      · rw [fails]
        constructor
        · rintro ⟨run, member, error, failed⟩
          rcases List.mem_append.1 member with stored | buffered
          · obtain ⟨chunk, chunk_mem, reader, found, rfl⟩ :=
              exists_left_of_forall₂ related stored
            exact ⟨chunk, chunk_mem, .inr ⟨reader, error, found, failed⟩⟩
          · obtain rfl := List.mem_singleton.1 buffered
            cases residual <;> simp [Run.next] at failed
        · rintro ⟨chunk, member, unreadable⟩
          obtain ⟨run, run_mem, reader, found, rfl⟩ := exists_right_of_forall₂ related member
          refine ⟨_, List.mem_append_left _ run_mem, ?_⟩
          rcases unreadable with ⟨error, closed⟩ | ⟨other, error, again, failed⟩
          · rw [closed] at found
            cases found
          · cases found.symm.trans again
            exact ⟨error, failed⟩

/-- A merge starts unless a chunk's file cannot be opened or its first feature cannot be read.  It
hands out what can be read of the files and the memory in order of key, run and position: everything,
then nothing more, if all files can be read to their ends, and else everything up to the first
feature behind which its file cannot be read on, then the error once, then nothing more. -/
theorem ofRuns_hands_out_in_order {disk : Disk} {chunks : List Chunk}
    {residual : List Feature}
    (chunks_ascend : ∀ chunk ∈ chunks,
      (chunk.contents disk).features.Pairwise fun a b => a.key ≤ b.key)
    (residual_ascends : residual.Pairwise fun a b => a.key ≤ b.key) :
    ((∃ error, (ofRuns chunks residual disk).1 = .error error) ↔
        ∃ chunk ∈ chunks, chunk.Unreadable disk) ∧
      ∀ merge after, ofRuns chunks residual disk = (.ok merge, after) →
        ∃ ordered : List PlacedFeature,
          ordered.Perm (placeAll 0 (chunks.map (Chunk.contents disk) ++ [⟨residual, none⟩])) ∧
          ordered.Pairwise Precedes ∧
          (∀ count, (merge.take count after).1 =
            (List.range count).map fun index => (handOut ordered)[index]?) ∧
          ((∀ chunk ∈ chunks, (chunk.contents disk).fault = none) →
            handOut ordered = ordered.map fun placed => .ok placed.feature) ∧
          ∀ front placed behind error, ordered = front ++ placed :: behind →
            (∀ other ∈ front, other.fault = none) → placed.fault = some error →
            handOut ordered =
              (front ++ [placed]).map (fun other => .ok other.feature) ++ [.error error] := by
  refine ⟨ofRuns_fails_iff, fun merge after started => ?_⟩
  have yields := yields_ofRuns started chunks_ascend residual_ascends
  refine ⟨_, inOrder_perm _, pairwise_inOrder _, fun count => take_of_yields yields count, ?_, ?_⟩
  · intro readable
    apply handOut_of_sound
    intro placed member
    refine fault_of_mem_placeAll ?_ ((inOrder_perm _).mem_iff.1 member)
    intro contents contents_mem
    rcases List.mem_append.1 contents_mem with stored | buffered
    · obtain ⟨chunk, chunk_mem, rfl⟩ := List.mem_map.1 stored
      exact readable chunk chunk_mem
    · rw [List.mem_singleton.1 buffered]
  · intro front placed behind error split sound faulty
    rw [split]
    exact handOut_of_fault sound faulty

/-- A chunk of two records. -/
def cutChunk : Chunk := ⟨"/cut.chunk", 0, 2, 66⟩

/-- A disk on which the file of `cutChunk` ends behind the first record. -/
def cutDisk : Disk where
  entries := [(["cut.chunk"], .file 0)]
  files := [(ChunkHeader.ofCounts 0 2 false).encode ++ ChunkRecord.encode ⟨3, [1]⟩]

theorem contents_cutChunk : cutChunk.contents cutDisk =
    ⟨[⟨3, [1]⟩], some (.corruption (.cutRecords "/cut.chunk" 1 2))⟩ := by
  have opened : ChunkReader.openPath cutChunk.path cutDisk =
      .ok ⟨"/cut.chunk", .ofCounts 0 2 false, 2, .plain ⟨0, 49, ChunkRecord.encode ⟨3, [1]⟩⟩⟩ := by
    rfl
  have first : ChunkReader.next ⟨"/cut.chunk", .ofCounts 0 2 false, 2,
      .plain ⟨0, 49, ChunkRecord.encode ⟨3, [1]⟩⟩⟩ cutDisk =
      (.ok (some ⟨3, [1]⟩), ⟨"/cut.chunk", .ofCounts 0 2 false, 1, .plain ⟨0, 49, []⟩⟩) := by
    decide +kernel
  have second : ChunkReader.next ⟨"/cut.chunk", .ofCounts 0 2 false, 1, .plain ⟨0, 49, []⟩⟩ cutDisk =
      (.error (.corruption (.cutRecords "/cut.chunk" 1 2)),
        ⟨"/cut.chunk", .ofCounts 0 2 false, 1, .plain ⟨0, 49, []⟩⟩) := by
    rfl
  simp only [Chunk.contents, opened, ChunkReader.contents, ChunkReader.readAll_of_some first,
    ChunkReader.readAll_of_error second]
  rfl

end

section

attribute [local instance] Frame.codec

theorem ofRuns_hands_out_in_order_cutChunk :
    ∃ merge after, ofRuns [cutChunk] [⟨2, []⟩, ⟨7, []⟩] cutDisk = (.ok merge, after) ∧
      ∀ count, (merge.take count after).1 = (List.range count).map fun index =>
        [.ok ⟨2, []⟩, .ok ⟨3, [1]⟩, .error (.corruption (.cutRecords "/cut.chunk" 1 2))][index]? := by
  have result := @ofRuns_hands_out_in_order _ cutDisk [cutChunk] [⟨2, []⟩, ⟨7, []⟩]
    (by simp [contents_cutChunk]) (by decide)
  rw [List.map_singleton, contents_cutChunk] at result
  have starts : (ofRuns [cutChunk] [⟨2, []⟩, ⟨7, []⟩] cutDisk).1.isOk := by decide +kernel
  cases started : ofRuns [cutChunk] [⟨2, []⟩, ⟨7, []⟩] cutDisk with
  | mk outcome after =>
      cases outcome with
      | error error => simp [started, Except.isOk, Except.toBool] at starts
      | ok merge =>
          obtain ⟨ordered, perm, sorted, taken, -, faulty⟩ := result.2 merge after started
          refine ⟨merge, after, rfl, ?_⟩
          have listed : (placeAll 0 [⟨[⟨3, [1]⟩],
              some (.corruption (.cutRecords "/cut.chunk" 1 2))⟩, ⟨[⟨2, []⟩, ⟨7, []⟩], none⟩]).Perm
              [⟨⟨2, []⟩, 1, 0, none⟩,
                ⟨⟨3, [1]⟩, 0, 0, some (.corruption (.cutRecords "/cut.chunk" 1 2))⟩,
                ⟨⟨7, []⟩, 1, 1, none⟩] := by decide
          have order := (perm.trans listed).eq_of_pairwise (fun a b a_mem b_mem =>
            Precedes.antisymm (before_placeAll 0 _) (perm.mem_iff.1 a_mem)
              (listed.mem_iff.2 b_mem)) sorted (by decide)
          rw [order] at taken
          exact taken

end

end Merge
end TileBindery
