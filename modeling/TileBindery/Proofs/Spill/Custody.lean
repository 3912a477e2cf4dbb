import Mathlib.Data.List.Nodup
import Mathlib.Logic.Relation
import TileBindery.Proofs.Spill.Releases
import TileBindery.Proofs.Spill.Sorting

/-!
# Who holds a chunk file

A chunk file belongs to the sorter that has written it, then to the merge that reads it, and is
removed by whoever holds it last.  Calls come in any order, a spill may fail, files may be damaged
between the calls, and the sorter and the merge are given up at any time.  The main statement says
that at every moment the chunk files that exist are those of the chunks that are held.
-/

namespace TileBindery

/-- A sorter and its merge, as long as they are not given up, on a disk. -/
structure SortSession where
  sorter : Option Sorter
  merge : Option Merge
  /-- All chunks that the sorter has written, in order. -/
  written : List Chunk
  disk : Disk

namespace SortSession

/-- The session of a new sorter. -/
def start (sorter : Sorter) (disk : Disk) : SortSession := ⟨some sorter, none, [], disk⟩

/-- The chunks that the sorter holds, and those that the merge has not read to their ends. -/
def held (session : SortSession) : List Chunk :=
  session.sorter.elim [] Sorter.chunks ++ session.merge.elim [] Merge.chunks

/-- A call, or the end of the sorter or of the merge. -/
inductive Call [Codec] : SortSession → SortSession → Prop where
  | add (sorter : Sorter) (merge : Option Merge) (written : List Chunk) (disk : Disk)
      (feature : Feature) :
      Call ⟨some sorter, merge, written, disk⟩
        ⟨some (sorter.add feature disk).2.1, merge,
          written ++ (sorter.add feature disk).2.1.chunks.drop sorter.chunks.length,
          (sorter.add feature disk).2.2⟩
  | sort (sorter : Sorter) (merge : Option Merge) (written : List Chunk) (disk : Disk) :
      Call ⟨some sorter, merge, written, disk⟩
        ⟨some (sorter.sort disk).2.1, (sorter.sort disk).1.toOption.or merge, written,
          (sorter.sort disk).2.2⟩
  | next (sorter : Option Sorter) (merge : Merge) (written : List Chunk) (disk : Disk) :
      Call ⟨sorter, some merge, written, disk⟩
        ⟨sorter, some (merge.next disk).2.1, written, (merge.next disk).2.2⟩
  | dropMerge (sorter : Option Sorter) (merge : Merge) (written : List Chunk) (disk : Disk) :
      Call ⟨sorter, some merge, written, disk⟩ ⟨sorter, none, written, merge.discard disk⟩
  | dropSorter (sorter : Sorter) (merge : Option Merge) (written : List Chunk) (disk : Disk) :
      Call ⟨some sorter, merge, written, disk⟩ ⟨none, merge, written, sorter.discard disk⟩

/-- A call, or a change that others make to the disk.  They may do anything except removing chunk
files that exist and bringing back such that do not. -/
inductive Step [Codec] : SortSession → SortSession → Prop where
  | call {session after : SortSession} (call : Call session after) : Step session after
  | change {session : SortSession} {other : Disk}
      (same : ∀ chunk ∈ session.written, chunk.Stands other ↔ chunk.Stands session.disk) :
      Step session { session with disk := other }

/-- The chunk files of a session are accounted for. -/
structure Custody (directory : String) (session : SortSession) : Prop where
  /-- Every chunk has the path of its number. -/
  paths : ∀ chunk ∈ session.written, chunk.path = Chunk.chunkPath directory chunk.number
  /-- No number is used twice. -/
  numbers : (session.written.map Chunk.number).Nodup
  /-- The sorter writes to the directory. -/
  directory : ∀ sorter ∈ session.sorter, sorter.directory = directory
  /-- The number of its next chunk is above those of all others. -/
  fresh : ∀ sorter ∈ session.sorter, ∀ chunk ∈ session.written, chunk.number < sorter.nextChunk
  /-- There is no merge before the features are handed over. -/
  first : ∀ sorter ∈ session.sorter, sorter.phase = .collecting → session.merge = none
  /-- A run of the merge that could not be read on was its last. -/
  tidy : ∀ merge ∈ session.merge, merge.Tidy
  /-- What is held has been written. -/
  inside : session.held ⊆ session.written
  /-- No chunk is held twice. -/
  single : session.held.Nodup
  /-- The chunk files that exist are those of the chunks that are held. -/
  stands : ∀ chunk ∈ session.written, chunk.Stands session.disk ↔ chunk ∈ session.held

namespace Custody

variable {directory : String} {session : SortSession}

theorem location_injective (custody : session.Custody directory) {chunk other : Chunk}
    (chunk_mem : chunk ∈ session.written) (other_mem : other ∈ session.written)
    (same : chunk.location = other.location) : chunk = other := by
  have numbers : chunk.number = other.number := by
    by_contra apart
    rw [Chunk.location, Chunk.location, custody.paths chunk chunk_mem,
      custody.paths other other_mem] at same
    exact Chunk.chunkPath_apart apart directory same
  exact List.inj_on_of_nodup_map custody.numbers chunk_mem other_mem numbers

/-- Letting chunks go keeps the account when their files are removed. -/
theorem release (custody : session.Custody directory) {sorter : Option Sorter}
    {merge : Option Merge} {after : Disk} {gone : List Chunk}
    (released : Chunk.Releases session.disk gone after)
    (shares : session.held.Perm (gone ++ held ⟨sorter, merge, session.written, after⟩))
    (own : ∀ last ∈ sorter, last.directory = directory)
    (fresh : ∀ last ∈ sorter, ∀ chunk ∈ session.written, chunk.number < last.nextChunk)
    (first : ∀ last ∈ sorter, last.phase = .collecting → merge = none)
    (tidy : ∀ rest ∈ merge, rest.Tidy) :
    Custody directory ⟨sorter, merge, session.written, after⟩ := by
  have single := List.nodup_append.1 (shares.nodup_iff.1 custody.single)
  have kept := List.Subset.trans (List.subset_append_right _ _) shares.symm.subset
  have let_go : gone ⊆ session.held :=
    List.Subset.trans (List.subset_append_left _ _) shares.symm.subset
  refine ⟨custody.paths, custody.numbers, own, fresh, first, tidy,
    List.Subset.trans kept custody.inside, single.2.1, ?_⟩
  intro chunk member
  have places : chunk.location ∈ gone.map Chunk.location ↔ chunk ∈ gone := by
    rw [List.mem_map]
    constructor
    · rintro ⟨other, other_mem, same⟩
      have other_written := custody.inside (let_go other_mem)
      rwa [← custody.location_injective other_written member same]
    · intro in_gone
      exact ⟨chunk, in_gone, rfl⟩
  have removable : ∀ chunk ∈ gone, chunk.Removable session.disk := fun chunk own =>
    .inl ((custody.stands chunk (custody.inside (let_go own))).2 (let_go own))
  rw [released.stands_iff removable, custody.stands chunk member, places, shares.mem_iff,
    List.mem_append]
  constructor
  · rintro ⟨in_gone | in_rest, other⟩
    · exact absurd in_gone other
    · exact in_rest
  · intro in_rest
    exact ⟨.inr in_rest, fun in_gone => single.2.2 chunk in_gone chunk in_rest rfl⟩

/-- Changes to the disk do not matter as long as the same chunk files exist. -/
theorem of_same (custody : session.Custody directory) {other : Disk}
    (same : ∀ chunk ∈ session.written, chunk.Stands other ↔ chunk.Stands session.disk) :
    Custody directory { session with disk := other } :=
  { custody with
    stands := fun chunk member => (same chunk member).trans (custody.stands chunk member) }

section Adding

variable {sorter after : Sorter} {merge : Option Merge} {written : List Chunk} {disk behind : Disk}

/-- A sorter may change as long as it holds the same chunks. -/
theorem proceed (custody : Custody directory ⟨some sorter, merge, written, disk⟩)
    (own : after.directory = sorter.directory) (chunks : after.chunks = sorter.chunks)
    (above : sorter.nextChunk ≤ after.nextChunk)
    (first : after.phase = .collecting → sorter.phase = .collecting) :
    Custody directory
      ⟨some after, merge, written ++ after.chunks.drop sorter.chunks.length, disk⟩ := by
  have held_eq : held ⟨some after, merge, written, disk⟩ =
      held ⟨some sorter, merge, written, disk⟩ :=
    congrArg (· ++ merge.elim [] Merge.chunks) chunks
  have old_stands := custody.stands
  rw [chunks, List.drop_length, List.append_nil]
  refine ⟨custody.paths, custody.numbers, ?_, ?_, ?_, custody.tidy, held_eq ▸ custody.inside,
    held_eq ▸ custody.single, held_eq ▸ old_stands⟩
  · rintro _ ⟨⟩
    exact own.trans (custody.directory sorter rfl)
  · rintro _ ⟨⟩ chunk member
    exact Nat.lt_of_lt_of_le (custody.fresh sorter rfl chunk member) above
  · rintro _ ⟨⟩ collecting
    exact custody.first sorter rfl (first collecting)

/-- A sorter may write a chunk. -/
theorem extend {chunk : Chunk} (custody : Custody directory ⟨some sorter, merge, written, disk⟩)
    (path : chunk.path = Chunk.chunkPath directory chunk.number)
    (number : chunk.number = sorter.nextChunk) (placed : chunk.Stands behind)
    (same : ∀ other ∈ written, other.Stands behind ↔ other.Stands disk) :
    Custody directory
      ⟨some (sorter.stored chunk), merge,
        written ++ (sorter.stored chunk).chunks.drop sorter.chunks.length, behind⟩ := by
  have shape : (sorter.stored chunk).chunks.drop sorter.chunks.length = [chunk] := List.drop_left
  have fresh := custody.fresh sorter rfl
  have new : chunk ∉ written := fun member => Nat.ne_of_lt (fresh chunk member) number
  have shares : (held ⟨some (sorter.stored chunk), merge, written, disk⟩).Perm
      (chunk :: held ⟨some sorter, merge, written, disk⟩) := by
    change (sorter.chunks ++ [chunk] ++ merge.elim [] Merge.chunks).Perm
      (chunk :: (sorter.chunks ++ merge.elim [] Merge.chunks))
    rw [List.append_assoc, List.singleton_append]
    exact List.perm_middle
  rw [shape]
  refine ⟨?_, ?_, ?_, ?_, ?_, custody.tidy, ?_, ?_, ?_⟩
  · intro other member
    rcases List.mem_append.1 member with old | last
    · exact custody.paths other old
    · exact List.mem_singleton.1 last ▸ path
  · rw [List.map_append, List.nodup_append]
    refine ⟨custody.numbers, List.nodup_singleton _, ?_⟩
    intro old old_mem last last_mem
    obtain ⟨other, member, rfl⟩ := List.mem_map.1 old_mem
    rw [List.map_singleton, List.mem_singleton] at last_mem
    rw [last_mem, number]
    exact Nat.ne_of_lt (fresh other member)
  · rintro _ ⟨⟩
    exact custody.directory sorter rfl
  · rintro _ ⟨⟩ other member
    rcases List.mem_append.1 member with old | last
    · exact Nat.lt_succ_of_lt (fresh other old)
    · rw [List.mem_singleton.1 last, number]
      exact Nat.lt_succ_self _
  · rintro _ ⟨⟩
    exact custody.first sorter rfl
  · intro other member
    rcases List.mem_cons.1 (shares.mem_iff.1 member) with rfl | old
    · exact List.mem_append_right _ List.mem_cons_self
    · exact List.mem_append_left _ (custody.inside old)
  · refine shares.nodup_iff.2 (List.nodup_cons.2 ⟨fun old => ?_, custody.single⟩)
    exact new (custody.inside old)
  · intro other member
    refine Iff.trans ?_ shares.mem_iff.symm
    rw [List.mem_cons]
    rcases List.mem_append.1 member with old | last
    · have apart : other ≠ chunk := by
        rintro rfl
        exact new old
      rw [same other old, custody.stands other old, or_iff_right apart]
    · obtain rfl := List.mem_singleton.1 last
      exact iff_of_true placed (.inl rfl)

/-- Writing a chunk, or failing to write it, leaves all other chunk files in place. -/
theorem stands_of_write [Codec] (custody : Custody directory ⟨some sorter, merge, written, disk⟩)
    {features : List Feature} {outcome : Except SortError Chunk}
    (wrote : Chunk.write sorter.directory sorter.nextChunk features sorter.config disk =
      (outcome, behind)) :
    ∀ other ∈ written, other.Stands behind ↔ other.Stands disk := by
  intro other member
  have path := custody.paths other member
  rw [← custody.directory sorter rfl] at path
  cases outcome with
  | ok chunk =>
      obtain ⟨octets, -, -, stored⟩ := Chunk.stored_of_write wrote
      have apart : other.location ≠
          (Path.ofText (Chunk.chunkPath sorter.directory sorter.nextChunk)).location := by
        rw [Chunk.location, path]
        exact Chunk.chunkPath_apart (Nat.ne_of_lt (custody.fresh sorter rfl other member)) _
      refine Chunk.Stands.congr stored.directory_iff ?_
      by_cases root : other.location = []
      · rw [root, Disk.lookup_nil, Disk.lookup_nil]
      · rw [stored.entries _ root, if_neg apart]
  | error error =>
      have entries := Chunk.lookup_of_write_error wrote
      refine Chunk.Stands.congr (fun location => ?_) ?_
      · rcases entries location with still | ⟨-, ⟨number, stood⟩, gone⟩
        · rw [still]
        · simp [stood, gone]
      · refine (entries other.location).resolve_right ?_
        rintro ⟨temporary, -⟩
        rw [Chunk.location, path] at temporary
        exact Chunk.temporaryPath_apart _ _ _ temporary

theorem add [Codec] (custody : Custody directory ⟨some sorter, merge, written, disk⟩)
    (feature : Feature) :
    Custody directory
      ⟨some (sorter.add feature disk).2.1, merge,
        written ++ (sorter.add feature disk).2.1.chunks.drop sorter.chunks.length,
        (sorter.add feature disk).2.2⟩ := by
  have result := Sorter.added sorter feature disk
  generalize sorter.add feature disk = outcome at result
  have filled : Custody directory ⟨some (sorter.push feature), merge, written, disk⟩ := by
    have place : (sorter.push feature).directory = sorter.directory := rfl
    have pushed : (sorter.push feature).chunks = sorter.chunks := rfl
    have same := custody.proceed place pushed (Nat.le_refl _) id
    rwa [pushed, List.drop_length, List.append_nil] at same
  cases result with
  | tooLarge | refused | late => exact custody.proceed rfl rfl (Nat.le_refl _) id
  | buffered => exact custody.proceed rfl rfl (Nat.le_refl _) id
  | @spilled chunk behind _ _ wrote =>
      obtain ⟨octets, -, shape, stored⟩ := Chunk.stored_of_write wrote
      have same := filled.stands_of_write wrote
      refine filled.extend ?_ ?_ ?_ same
      · rw [shape, filled.directory _ rfl]
      · rw [shape]
      · rw [shape]
        exact ⟨disk.files.length, Disk.fileAt_iff.2 ⟨stored.reaches_after, stored.stands⟩⟩
  | @lost error behind _ _ failed =>
      have same := filled.stands_of_write failed
      exact (filled.of_same same).proceed rfl rfl (Nat.le_succ _) (by rintro ⟨⟩)

end Adding

theorem sort [Codec] {sorter : Sorter} {merge : Option Merge} {written : List Chunk} {disk : Disk}
    (custody : Custody directory ⟨some sorter, merge, written, disk⟩) :
    Custody directory
      ⟨some (sorter.sort disk).2.1, (sorter.sort disk).1.toOption.or merge, written,
        (sorter.sort disk).2.2⟩ := by
  rw [Sorter.sort]
  split
  next => exact custody
  next => exact custody
  next collecting =>
    obtain rfl : merge = none := custody.first sorter rfl collecting
    have held_eq : held ⟨some sorter, none, written, disk⟩ = sorter.chunks := List.append_nil _
    obtain ⟨gone, released, shares⟩ := Merge.releases_ofRuns sorter.chunks
      (Sorter.inKeyOrder sorter.buffer.toList) disk
    dsimp only
    rw [Option.or_none]
    refine custody.release released ?_ ?_ ?_ ?_ ?_
    · rw [held_eq]
      exact shares
    · rintro _ ⟨⟩
      exact custody.directory sorter rfl
    · rintro _ ⟨⟩
      exact custody.fresh sorter rfl
    · rintro _ ⟨⟩ ⟨⟩
    · intro merge started
      cases outcome : Merge.ofRuns sorter.chunks (Sorter.inKeyOrder sorter.buffer.toList) disk with
      | mk result behind =>
          rw [outcome] at started
          cases result with
          | error error => cases started
          | ok made =>
              cases started
              exact Merge.tidy_ofRuns outcome

section Reading

variable {sorter : Option Sorter} {merge : Merge} {written : List Chunk} {disk : Disk}

theorem next (custody : Custody directory ⟨sorter, some merge, written, disk⟩) :
    Custody directory ⟨sorter, some (merge.next disk).2.1, written, (merge.next disk).2.2⟩ := by
  have tidy := custody.tidy merge rfl
  obtain ⟨gone, released, shares⟩ := Merge.releases_next tidy disk
  refine custody.release released ?_ custody.directory custody.fresh ?_ ?_
  · exact (shares.append_left _).trans (List.perm_append_comm_assoc _ _ _)
  · intro last member collecting
    exact absurd (custody.first last member collecting) (Option.some_ne_none _)
  · rintro _ ⟨⟩
    exact Merge.tidy_next tidy disk

theorem dropMerge (custody : Custody directory ⟨sorter, some merge, written, disk⟩) :
    Custody directory ⟨sorter, none, written, merge.discard disk⟩ := by
  refine custody.release (Merge.releases_discard merge disk) ?_ custody.directory custody.fresh ?_ ?_
  · refine List.perm_append_comm.trans (List.Perm.of_eq ?_)
    exact congrArg (merge.chunks ++ ·) (List.append_nil _).symm
  · exact fun _ _ _ => rfl
  · rintro _ ⟨⟩

theorem dropSorter {sorter : Sorter} {merge : Option Merge}
    (custody : Custody directory ⟨some sorter, merge, written, disk⟩) :
    Custody directory ⟨none, merge, written, sorter.discard disk⟩ := by
  refine custody.release (Chunk.releases_dropAll sorter.chunks disk) (.refl _) ?_ ?_ ?_ custody.tidy
  · rintro _ ⟨⟩
  · rintro _ ⟨⟩
  · rintro _ ⟨⟩

end Reading

theorem step [Codec] {after : SortSession} (custody : session.Custody directory)
    (step : Step session after) : after.Custody directory := by
  cases step with
  | call call =>
      cases call with
      | add _ _ _ _ feature => exact custody.add feature
      | sort => exact custody.sort
      | next => exact custody.next
      | dropMerge => exact custody.dropMerge
      | dropSorter => exact custody.dropSorter
  | change same => exact custody.of_same same

theorem start {config : SpillConfig} {disk begun : Disk} {sorter : Sorter}
    (created : Sorter.create directory config disk = (.ok sorter, begun)) :
    (SortSession.start sorter begun).Custody directory := by
  obtain ⟨-, rfl⟩ := Sorter.eq_fresh_of_create created
  refine ⟨?_, List.nodup_nil, ?_, ?_, fun _ _ _ => rfl, ?_, ?_, List.nodup_nil, ?_⟩
  · exact fun _ member => absurd member List.not_mem_nil
  · rintro _ ⟨⟩
    rfl
  · exact fun _ _ _ member => absurd member List.not_mem_nil
  · rintro _ ⟨⟩
  · exact List.nil_subset _
  · exact fun _ member => absurd member List.not_mem_nil

theorem steps [Codec] {after : SortSession} (custody : session.Custody directory)
    (steps : Relation.ReflTransGen Step session after) : after.Custody directory := by
  induction steps with
  | refl => exact custody
  | tail _ step ih => exact ih.step step

end Custody

/-! ### Calls -/

/-- A call brings no file besides those of chunks that are held: what has been written under a
temporary name is renamed or gone. -/
theorem Call.brings [Codec] {session after : SortSession} (call : Call session after)
    {location : Location} {number : Nat}
    (stands : after.disk.lookup location = some (.file number)) :
    session.disk.lookup location = some (.file number) ∨
      ∃ chunk ∈ after.held, chunk.location = location := by
  cases call with
  | add sorter merge written disk feature =>
      have result := Sorter.added sorter feature disk
      generalize sorter.add feature disk = outcome at result stands ⊢
      cases result with
      | tooLarge | refused | late | buffered => exact .inl stands
      | @spilled chunk behind _ _ wrote =>
          obtain ⟨octets, -, shape, stored⟩ := Chunk.stored_of_write wrote
          by_cases root : location = []
          · rw [root, Disk.lookup_nil] at stands
            cases stands
          · rw [stored.entries location root] at stands
            split at stands
            next same =>
              refine .inr ⟨chunk, ?_, ?_⟩
              · exact List.mem_append_left _ (List.mem_append_right _ List.mem_cons_self)
              · rw [same, Chunk.location, shape]
            next => exact .inl stands
      | lost _ _ failed =>
          rcases Chunk.lookup_of_write_error failed location with still | ⟨-, -, gone⟩
          · exact .inl (still ▸ stands)
          · rw [gone] at stands
            cases stands
  | sort sorter merge written disk => exact .inl ((sorter.sheds_sort disk).file_of_file stands)
  | next sorter merge written disk => exact .inl ((merge.sheds_next disk).file_of_file stands)
  | dropMerge sorter merge written disk =>
      rw [Merge.discard_eq] at stands
      exact .inl ((Chunk.sheds_dropAll _ disk).file_of_file stands)
  | dropSorter sorter merge written disk =>
      exact .inl ((Chunk.sheds_dropAll _ disk).file_of_file stands)

/-- Whatever happens to a sorter and its merge in whatever order: the chunk files that exist are
those of the chunks that the sorter holds and of those that the merge has not read to their ends,
and calls bring no others; the file of a chunk is gone when its last feature is handed out; sorting
that fails leaves no chunk file; and none is left when both have been given up. -/
theorem chunk_files_are_held [Codec] {directory : String} {config : SpillConfig} {disk begun : Disk}
    {sorter : Sorter} {session : SortSession}
    (created : Sorter.create directory config disk = (.ok sorter, begun))
    (steps : Relation.ReflTransGen Step (start sorter begun) session) :
    ((∀ chunk ∈ session.written, chunk.path = Chunk.chunkPath directory chunk.number ∧
        (chunk.Stands session.disk ↔ chunk ∈ session.held)) ∧
      session.held ⊆ session.written ∧ session.held.Nodup) ∧
    (∀ after, Call session after → ∀ location number,
      after.disk.lookup location = some (.file number) →
        session.disk.lookup location = some (.file number) ∨
          ∃ chunk ∈ after.held, chunk.location = location) ∧
    (∀ merge split file reader, session.merge = some merge →
      merge.finished = false → merge.pending = none →
      MergeSource.splitLeast merge.sources = some split →
      split.least.run = .chunk file reader → reader.remaining = 0 →
        (merge.next session.disk).1 = some (.ok split.least.head) ∧
          ¬file.Stands (merge.next session.disk).2.2) ∧
    (∀ last error after behind, session.sorter = some last → last.phase = .collecting →
      last.sort session.disk = (.error error, after, behind) →
        ∀ chunk ∈ session.written, ¬chunk.Stands behind) ∧
    (session.sorter = none → session.merge = none →
      ∀ chunk ∈ session.written, ¬chunk.Stands session.disk) := by
  have custody := (Custody.start created).steps steps
  refine ⟨⟨fun chunk member => ⟨custody.paths chunk member, custody.stands chunk member⟩,
    custody.inside, custody.single⟩, fun after call location number => call.brings, ?_, ?_, ?_⟩
  · intro merge split file reader merging going quiet found reads last
    have own : file ∈ merge.chunks := by
      rw [Merge.chunks, MergeSource.eq_of_splitLeast found]
      simp [MergeSource.chunks, reads, Run.chunks]
    have held_mem : file ∈ session.held := by
      rw [held, merging]
      exact List.mem_append_right _ own
    have dropped := Chunk.releases_drop file session.disk
    have removable : ∀ chunk ∈ [file], chunk.Removable session.disk := by
      intro chunk member
      rw [List.mem_singleton.1 member]
      exact .inl ((custody.stands file (custody.inside held_mem)).2 held_mem)
    rw [Merge.next_of_last going quiet found reads last]
    refine ⟨rfl, fun stands => ?_⟩
    exact ((dropped.stands_iff removable).1 stands).2 List.mem_cons_self
  · intro last error after behind sorting collecting failed chunk member
    obtain ⟨sorter, merge, written, disk⟩ := session
    obtain rfl : sorter = some last := sorting
    obtain rfl : merge = none := custody.first last rfl collecting
    have left := custody.sort
    have emptied : (last.sort disk).2.1.chunks = [] := by
      rw [Sorter.sort, collecting]
    have none_held := left.stands chunk member
    rw [failed] at none_held emptied
    rw [none_held]
    change chunk ∉ after.chunks ++ []
    rw [emptied]
    exact List.not_mem_nil
  · intro no_sorter no_merge chunk member
    rw [custody.stands chunk member, held, no_sorter, no_merge]
    exact List.not_mem_nil

section

attribute [local instance] Frame.codec

/-- A chunk file that is emptied is still removed: the merge cannot be opened. -/
theorem chunk_files_are_held_emptied :
    ∃ sorter begun last error after behind,
      Sorter.create "/run" Sorter.eagerConfig .empty = (.ok sorter, begun) ∧
      Relation.ReflTransGen Step (start sorter begun)
        ⟨some last, none, [Sorter.eagerChunk 0], Sorter.oneChunk []⟩ ∧
      (Sorter.eagerChunk 0).Stands (Sorter.oneChunk []) ∧
      last.sort (Sorter.oneChunk []) = (.error error, after, behind) ∧
      ¬(Sorter.eagerChunk 0).Stands behind := by
  let fresh := Sorter.fresh "/run" Sorter.eagerConfig
  let last := (fresh.push ⟨5, [1]⟩).stored (Sorter.eagerChunk 0)
  have created : Sorter.create "/run" Sorter.eagerConfig .empty = (.ok fresh, Sorter.runDisk) := by
    rfl
  have add : Call (start fresh Sorter.runDisk)
      ⟨some last, none, [Sorter.eagerChunk 0],
        Sorter.oneChunk (Sorter.eagerOctets 0 ⟨5, [1]⟩)⟩ := by
    have call := Call.add fresh none [] Sorter.runDisk ⟨5, [1]⟩
    rw [Sorter.add_eager] at call
    exact call
  have change : Step ⟨some last, none, [Sorter.eagerChunk 0],
        Sorter.oneChunk (Sorter.eagerOctets 0 ⟨5, [1]⟩)⟩
      ⟨some last, none, [Sorter.eagerChunk 0], Sorter.oneChunk []⟩ :=
    .change fun other _ => Chunk.Stands.congr (fun _ => Iff.rfl) rfl
  have steps : Relation.ReflTransGen Step (start fresh Sorter.runDisk) _ :=
    .tail (.single (.call add)) change
  have stands : (Sorter.eagerChunk 0).Stands (Sorter.oneChunk []) := ⟨0, by decide +kernel⟩
  have failed : last.sort (Sorter.oneChunk []) =
      (.error (.corruption (.cutHeader (Sorter.eagerChunk 0).path)), last.emptied,
        ⟨Sorter.runDisk.entries, [[]]⟩) := by
    decide +kernel
  have removed := (chunk_files_are_held created steps).2.2.2.1 _ _ _ _ rfl rfl failed
  exact ⟨_, _, _, _, _, _, created, steps, stands, failed,
    removed (Sorter.eagerChunk 0) List.mem_cons_self⟩

end

end SortSession
end TileBindery
