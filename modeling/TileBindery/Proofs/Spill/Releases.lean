import TileBindery.Proofs.Spill.ChunkWriting
import TileBindery.Proofs.Spill.Cleanup
import TileBindery.Proofs.Spill.Opening

/-!
# Chunk files that are released

Every call that removes chunk files removes exactly those of the chunks that it lets go: what a merge
held before the call are the chunks it still holds and the chunks whose files are gone.  The main
statements say so for a merge that is started, read on and given up, and that a chunk that cannot be
written leaves no file behind.
-/

namespace TileBindery

/-! ### Chunks and their files -/

namespace Chunk

/-- Where the file of a chunk stands. -/
def location (chunk : Chunk) : Location := (Path.ofText chunk.path).location

/-- The file of a chunk exists. -/
def Stands (chunk : Chunk) (disk : Disk) : Prop :=
  ∃ number, disk.fileAt (Path.ofText chunk.path) = .ok number

/-- Removing the file of a chunk leaves nothing at its place. -/
def Removable (chunk : Chunk) (disk : Disk) : Prop :=
  chunk.Stands disk ∨ disk.lookup chunk.location = none

variable {chunk : Chunk} {disk middle after : Disk} {gone more : List Chunk}

theorem Stands.congr {other : Disk}
    (directories : ∀ location,
      other.lookup location = some .directory ↔ disk.lookup location = some .directory)
    (place : other.lookup chunk.location = disk.lookup chunk.location) :
    chunk.Stands other ↔ chunk.Stands disk :=
  exists_congr fun _ => Disk.fileAt_congr directories place

theorem Removable.of_sheds (removable : chunk.Removable disk) (sheds : disk.Sheds after) :
    chunk.Removable after := by
  rcases sheds.entries chunk.location with same | ⟨-, gone⟩
  · rcases removable with stands | vacant
    · exact .inl ((Stands.congr sheds.directory_iff same).2 stands)
    · exact .inr (same.trans vacant)
  · exact .inr gone

/-- A disk `after` the files of some chunks have been removed. -/
structure Releases (disk : Disk) (gone : List Chunk) (after : Disk) : Prop where
  /-- Nothing but files is gone. -/
  sheds : disk.Sheds after
  /-- Elsewhere everything is as before. -/
  others : ∀ place, place ∉ gone.map location → after.lookup place = disk.lookup place
  /-- There is nothing at the places of the files, unless they could not be removed. -/
  vacant : ∀ chunk ∈ gone, chunk.Removable disk → after.lookup chunk.location = none

namespace Releases

theorem refl (disk : Disk) : Releases disk [] disk :=
  ⟨.refl disk, fun _ _ => rfl, fun _ member => absurd member List.not_mem_nil⟩

theorem trans (first : Releases disk gone middle) (second : Releases middle more after) :
    Releases disk (gone ++ more) after where
  sheds := first.sheds.trans second.sheds
  others place other := by
    rw [List.map_append, List.mem_append, not_or] at other
    rw [second.others place other.2, first.others place other.1]
  vacant chunk member removable := by
    rcases List.mem_append.1 member with early | late
    · exact second.sheds.vacant (first.vacant chunk early removable)
    · exact second.vacant chunk late (removable.of_sheds first.sheds)

theorem congr (releases : Releases disk gone after)
    (same : ∀ chunk, chunk ∈ more ↔ chunk ∈ gone) : Releases disk more after where
  sheds := releases.sheds
  others place other := by
    refine releases.others place fun member => other ?_
    obtain ⟨chunk, own, rfl⟩ := List.mem_map.1 member
    exact List.mem_map_of_mem ((same chunk).2 own)
  vacant chunk member := releases.vacant chunk ((same chunk).1 member)

/-- The files that stand after a release are those that stood and were not released. -/
theorem stands_iff (releases : Releases disk gone after)
    (removable : ∀ chunk ∈ gone, chunk.Removable disk) :
    chunk.Stands after ↔ chunk.Stands disk ∧ chunk.location ∉ gone.map location := by
  by_cases member : chunk.location ∈ gone.map location
  · obtain ⟨other, own, same⟩ := List.mem_map.1 member
    have vacant := releases.vacant other own (removable other own)
    rw [same] at vacant
    constructor
    · rintro ⟨number, stands⟩
      have standing : after.lookup chunk.location = some (.file number) :=
        (Disk.fileAt_iff.1 stands).2
      rw [vacant] at standing
      cases standing
    · rintro ⟨-, kept⟩
      exact absurd member kept
  · rw [Stands.congr releases.sheds.directory_iff (releases.others _ member)]
    exact (and_iff_left member).symm

end Releases

theorem releases_drop (chunk : Chunk) (disk : Disk) : Releases disk [chunk] (chunk.drop disk) where
  sheds := Disk.sheds_dropFile disk _
  others place other := by
    refine (Disk.lookup_dropFile disk (Path.ofText chunk.path) place).resolve_right ?_
    rintro ⟨same, -⟩
    exact other (List.mem_singleton.2 same)
  vacant own member removable := by
    obtain rfl := List.mem_singleton.1 member
    rcases removable with ⟨number, stands⟩ | vacant
    · obtain ⟨reaches, standing⟩ := Disk.fileAt_iff.1 stands
      rw [drop, Disk.dropFile_of_stands reaches standing, location,
        Disk.lookup_unbind reaches.location_ne_nil, if_pos rfl]
    · exact (Disk.sheds_dropFile disk _).vacant vacant

theorem releases_dropAll (chunks : List Chunk) (disk : Disk) :
    Releases disk chunks (dropAll chunks disk) := by
  induction chunks generalizing disk with
  | nil => exact .refl disk
  | cons chunk rest ih => exact (releases_drop chunk disk).trans (ih _)

theorem dropAll_append (chunks others : List Chunk) (disk : Disk) :
    dropAll (chunks ++ others) disk = dropAll others (dropAll chunks disk) := List.foldl_append

/-! ### Chunks that cannot be written -/

theorem isName_temporary (number : Nat) :
    Path.IsName ("chunk-" ++ Path.numberText number ++ ".tmp") :=
  Path.isName_number (by decide) (by decide) (by decide) number

/-- No chunk has the place at which one is being written. -/
theorem temporaryPath_apart (directory : String) (number other : Nat) :
    (Path.ofText (chunkPath directory other)).location ≠
      (Path.ofText (temporaryPath directory number)).location := by
  rw [location_chunkPath, temporaryPath, Path.location_join (isName_temporary number)]
  intro same
  have names := List.singleton_inj.1 (List.append_cancel_left same)
  have last := congrArg (fun name : String => name.toList.reverse.head?) names
  simp [String.toList_append] at last

/-- A chunk that cannot be written is given up under its temporary name: either an old file with this
name, or what has been written so far. -/
theorem cases_of_write_error [Codec] {directory : String} {number : Nat} {features : List Feature}
    {config : SpillConfig} {error : SortError}
    (failed : write directory number features config disk = (.error error, after)) :
    after = disk.dropFile (Path.ofText (temporaryPath directory number)) ∨
      ∃ octets, disk.Reaches (Path.ofText (temporaryPath directory number)) ∧
        disk.lookup (Path.ofText (temporaryPath directory number)).location = none ∧
        after = (disk.addFile (Path.ofText (temporaryPath directory number)).location
          octets).dropFile (Path.ofText (temporaryPath directory number)) := by
  let temporary := Path.ofText (temporaryPath directory number)
  rw [write, place] at failed
  cases created : disk.createFile temporary with
  | error reason =>
      simp only [created, temporary, Prod.mk.injEq] at failed
      exact .inl failed.2.symm
  | ok opened =>
      obtain ⟨file, begun⟩ := opened
      obtain ⟨reaches, vacant, rfl, rfl⟩ := Disk.createFile_iff.1 created
      simp only [created, temporary] at failed
      cases encoded : encode number features config with
      | error reason =>
          simp only [encoded, Prod.mk.injEq] at failed
          exact .inr ⟨[], reaches, vacant, failed.2.symm⟩
      | ok octets =>
          simp only [encoded] at failed
          rw [Disk.write_addFile] at failed
          cases renamed : (disk.addFile temporary.location octets).rename temporary
              (Path.ofText (chunkPath directory number)) with
          | ok moved => simp [temporary, renamed] at failed
          | error reason =>
              simp only [temporary] at renamed
              simp only [renamed, Prod.mk.injEq] at failed
              exact .inr ⟨octets, reaches, vacant, failed.2.symm⟩

/-- A chunk that cannot be written changes nothing, except that an old file with the temporary name
may be gone. -/
theorem lookup_of_write_error [Codec] {directory : String} {number : Nat} {features : List Feature}
    {config : SpillConfig} {error : SortError}
    (failed : write directory number features config disk = (.error error, after))
    (location : Location) :
    after.lookup location = disk.lookup location ∨
      location = (Path.ofText (temporaryPath directory number)).location ∧
        (∃ stood, disk.lookup location = some (.file stood)) ∧ after.lookup location = none := by
  rcases cases_of_write_error failed with rfl | ⟨octets, reaches, vacant, rfl⟩
  · exact Disk.lookup_dropFile disk _ location
  · exact .inl (Disk.lookup_dropFile_addFile reaches vacant octets location)

/-- No file is forgotten over a chunk that cannot be written. -/
theorem files_of_write_error [Codec] {directory : String} {number : Nat} {features : List Feature}
    {config : SpillConfig} {error : SortError}
    (failed : write directory number features config disk = (.error error, after)) :
    disk.files <+: after.files := by
  rcases cases_of_write_error failed with rfl | ⟨octets, -, -, rfl⟩
  · exact (Disk.files_dropFile _ _).symm ▸ List.prefix_rfl
  · rw [Disk.files_dropFile]
    exact List.prefix_append _ _

end Chunk

/-! ### Merges -/

namespace Run

/-- The chunk of a run that reads a file. -/
def chunks : Run → List Chunk
  | .chunk file _ => [file]
  | .memory _ => []

theorem drop_eq (run : Run) (disk : Disk) : run.drop disk = Chunk.dropAll run.chunks disk := by
  cases run <;> rfl

theorem chunks_next (run : Run) (disk : Disk) : (run.next disk).2.chunks = run.chunks := by
  cases run with
  | chunk file reader => rfl
  | memory features => cases features <;> rfl

theorem chunks_of_next {run after : Run} {disk : Disk} {result : Except SortError (Option Feature)}
    (read : run.next disk = (result, after)) : after.chunks = run.chunks := by
  rw [← chunks_next run disk, read]

theorem releases_drop (run : Run) (disk : Disk) :
    Chunk.Releases disk run.chunks (run.drop disk) := by
  rw [drop_eq]
  exact Chunk.releases_dropAll _ disk

end Run

/-- The chunks that sources read. -/
def MergeSource.chunks (sources : List MergeSource) : List Chunk :=
  sources.flatMap fun source => source.run.chunks

namespace Merge

/-- The chunks whose files a merge still holds. -/
def chunks (merge : Merge) : List Chunk :=
  MergeSource.chunks merge.sources ++ merge.stalled.elim [] Run.chunks

/-- A run that could not be read on is the last thing that happens to a merge. -/
def Tidy (merge : Merge) : Prop :=
  merge.stalled = none ∨ merge.pending ≠ none ∨ merge.finished = true

theorem Tidy.fine {merge : Merge} (tidy : merge.Tidy) (going : ¬merge.finished = true)
    (quiet : merge.pending = none) : merge.stalled = none := by
  rcases tidy with fine | waiting | finished
  · exact fine
  · exact absurd quiet waiting
  · exact absurd finished going

theorem foldl_drop (sources : List MergeSource) (disk : Disk) :
    sources.foldl (fun disk source => source.run.drop disk) disk =
      Chunk.dropAll (MergeSource.chunks sources) disk := by
  induction sources generalizing disk with
  | nil => rfl
  | cons source rest ih =>
      rw [List.foldl_cons, ih, Run.drop_eq, ← Chunk.dropAll_append]
      rfl

theorem discard_eq (merge : Merge) (disk : Disk) :
    merge.discard disk = Chunk.dropAll merge.chunks disk := by
  rw [discard, foldl_drop, chunks, Chunk.dropAll_append]
  cases merge.stalled with
  | none => rfl
  | some run => exact Run.drop_eq run _

/-- A merge that is given up lets all its chunks go. -/
theorem releases_discard (merge : Merge) (disk : Disk) :
    Chunk.Releases disk merge.chunks (merge.discard disk) := by
  rw [discard_eq]
  exact Chunk.releases_dropAll _ disk

theorem chunks_of_openChunks [Codec] {disk : Disk} {chunks : List Chunk} {runs : List Run}
    (opened : openChunks disk chunks = .ok runs) : runs.flatMap Run.chunks = chunks := by
  have each := forall₂_of_openChunks opened
  clear opened
  induction each with
  | nil => rfl
  | @cons chunk run chunks runs related _ ih =>
      obtain ⟨reader, -, rfl⟩ := related
      rw [List.flatMap_cons, ih]
      rfl

/-- Reading the first features lets the chunks of empty runs go; the others have sources, unless a
run cannot be read. -/
theorem releases_prime (disk : Disk) (runs : List Run) :
    ∃ gone, Chunk.Releases disk gone (prime disk runs).2 ∧ gone ⊆ runs.flatMap Run.chunks ∧
      ∀ sources, (prime disk runs).1 = .ok sources →
        (runs.flatMap Run.chunks).Perm (gone ++ MergeSource.chunks sources) := by
  induction runs generalizing disk with
  | nil =>
      refine ⟨[], .refl disk, List.nil_subset _, ?_⟩
      rintro sources ⟨⟩
      exact .refl _
  | cons run rest ih =>
      rw [List.flatMap_cons, prime]
      split
      next failed => exact ⟨[], .refl disk, List.nil_subset _, by simp⟩
      next after ended =>
        have first := Run.releases_drop after disk
        rw [Run.chunks_of_next ended] at first
        obtain ⟨gone, released, inside, kept⟩ := ih (after.drop disk)
        refine ⟨run.chunks ++ gone, first.trans released, List.append_subset.2
          ⟨List.subset_append_left _ _, List.Subset.trans inside (List.subset_append_right _ _)⟩, ?_⟩
        intro sources primed
        rw [List.append_assoc]
        exact (kept sources primed).append_left _
      next feature after shown =>
        obtain ⟨gone, released, inside, kept⟩ := ih disk
        refine ⟨gone, released, List.Subset.trans inside (List.subset_append_right _ _), ?_⟩
        intro sources primed
        cases behind : (prime disk rest).1 with
        | error error => simp [behind, Except.map] at primed
        | ok others =>
            simp only [behind, Except.map, Except.ok.injEq] at primed
            subst primed
            have split : MergeSource.chunks (⟨feature, after⟩ :: others) =
                run.chunks ++ MergeSource.chunks others := by
              rw [← Run.chunks_of_next shown]
              rfl
            rw [split]
            exact ((kept others behind).append_left _).trans (List.perm_append_comm_assoc _ _ _)

/-- The chunks with which a merge is started are those it holds and those whose files are gone; a
merge that cannot be started holds none. -/
theorem releases_ofRuns [Codec] (chunks : List Chunk) (residual : List Feature) (disk : Disk) :
    ∃ gone, Chunk.Releases disk gone (ofRuns chunks residual disk).2 ∧
      chunks.Perm (gone ++ (ofRuns chunks residual disk).1.toOption.elim [] Merge.chunks) := by
  rw [ofRuns]
  split
  next failed =>
    refine ⟨chunks, Chunk.releases_dropAll chunks disk, ?_⟩
    rw [Except.toOption, Option.elim_none, List.append_nil]
  next runs opened =>
    have all : (runs ++ [Run.memory residual]).flatMap Run.chunks = chunks := by
      rw [List.flatMap_append, chunks_of_openChunks opened]
      exact List.append_nil _
    obtain ⟨gone, released, inside, kept⟩ := releases_prime disk (runs ++ [.memory residual])
    rw [all] at inside kept
    split
    next failed =>
      rw [failed] at released
      refine ⟨chunks, (released.trans (Chunk.releases_dropAll chunks _)).congr fun chunk => ?_, ?_⟩
      · rw [List.mem_append]
        exact ⟨.inr, fun member => member.elim (fun early => inside early) id⟩
      · rw [Except.toOption, Option.elim_none, List.append_nil]
    next sources left primed =>
      rw [primed] at released
      refine ⟨gone, released, ?_⟩
      have held := kept sources (congrArg Prod.fst primed)
      rwa [← List.append_nil (MergeSource.chunks sources)] at held

theorem tidy_ofRuns [Codec] {chunks : List Chunk} {residual : List Feature} {disk behind : Disk}
    {merge : Merge} (started : ofRuns chunks residual disk = (.ok merge, behind)) :
    merge.Tidy := by
  rw [ofRuns] at started
  split at started
  · simp at started
  · split at started
    · simp at started
    · cases started
      exact .inl rfl

/-- What a merge holds before it hands out the feature of a source is what it holds afterwards and
what it has let go. -/
theorem releases_pop {merge : Merge} {split : MergeSplit} {disk : Disk}
    (found : MergeSource.splitLeast merge.sources = some split) (fine : merge.stalled = none) :
    ∃ gone, Chunk.Releases disk gone (merge.pop split disk).2.2 ∧
      merge.chunks.Perm (gone ++ (merge.pop split disk).2.1.chunks) := by
  have shape : merge.chunks = MergeSource.chunks split.before ++
      (split.least.run.chunks ++ MergeSource.chunks split.after) := by
    rw [chunks, fine, MergeSource.eq_of_splitLeast found]
    simp [MergeSource.chunks]
  rw [shape]
  unfold pop
  dsimp only
  split
  next head run read =>
    refine ⟨[], .refl disk, ?_⟩
    have same := Run.chunks_of_next read
    simp [chunks, fine, MergeSource.chunks, same]
  next run ended =>
    have same := Run.chunks_of_next ended
    refine ⟨run.chunks, Run.releases_drop run disk, ?_⟩
    simp only [chunks, fine, MergeSource.chunks, same, Option.elim_none, List.append_nil,
      List.flatMap_append]
    exact List.perm_append_comm_assoc _ _ _
  next error run failed =>
    have same := Run.chunks_of_next failed
    refine ⟨[], .refl disk, ?_⟩
    simp only [chunks, MergeSource.chunks, same, Option.elim_some, List.flatMap_append,
      List.nil_append, List.append_assoc]
    exact List.perm_append_comm.append_left _

theorem releases_next {merge : Merge} (tidy : merge.Tidy) (disk : Disk) :
    ∃ gone, Chunk.Releases disk gone (merge.next disk).2.2 ∧
      merge.chunks.Perm (gone ++ (merge.next disk).2.1.chunks) := by
  rw [next]
  split
  · exact ⟨[], .refl disk, .refl _⟩
  next going =>
    split
    · exact ⟨[], .refl disk, .refl _⟩
    next quiet =>
      split
      · exact ⟨[], .refl disk, .refl _⟩
      next split found =>
        exact releases_pop found (tidy.fine going quiet)

/-- The file of a chunk whose last feature is shown is removed when that feature is handed out. -/
theorem next_of_last {merge : Merge} {split : MergeSplit} {file : Chunk} {reader : ChunkReader}
    (going : merge.finished = false) (quiet : merge.pending = none)
    (found : MergeSource.splitLeast merge.sources = some split)
    (reads : split.least.run = .chunk file reader) (last : reader.remaining = 0) (disk : Disk) :
    merge.next disk =
      (some (.ok split.least.head), { merge with sources := split.before ++ split.after },
        file.drop disk) := by
  have ended : split.least.run.next disk = (.ok none, .chunk file reader) := by
    rw [reads, Run.next, ChunkReader.next, if_pos last]
  simp only [next, going, quiet, found, pop, ended]
  rfl

theorem tidy_next {merge : Merge} (tidy : merge.Tidy) (disk : Disk) :
    (merge.next disk).2.1.Tidy := by
  rw [next]
  split
  · exact tidy
  next going =>
    split
    · exact .inr (.inr rfl)
    next quiet =>
      split
      · exact .inr (.inr rfl)
      next split found =>
        have fine := tidy.fine going quiet
        unfold pop
        dsimp only
        split
        · exact .inl fine
        · exact .inl fine
        · exact .inr (.inl (Option.some_ne_none _))

end Merge
end TileBindery
