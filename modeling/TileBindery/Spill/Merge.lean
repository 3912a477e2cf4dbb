import TileBindery.Spill.ChunkReader

/-!
# Merging sorted runs

The features of all chunk files and of the memory that was left over are merged in key order; equal
keys keep the order of the runs.  Every run shows its first unread feature, and the next feature of
a run is read before the one it showed is handed out.  A run that cannot be read on lets the feature
before it out, then the error, then nothing more.  A chunk file is removed when its last feature has
been read, and all that are left when the merge is given up.
-/

namespace TileBindery

/-- A sorted run behind the feature it shows. -/
inductive Run where
  | chunk (file : Chunk) (reader : ChunkReader)
  | memory (features : List Feature)
  deriving DecidableEq, Repr

namespace Run

def next (disk : Disk) : Run → Except SortError (Option Feature) × Run
  | .chunk file reader =>
      let (result, reader) := reader.next disk
      (result, .chunk file reader)
  | .memory [] => (.ok none, .memory [])
  | .memory (feature :: rest) => (.ok (some feature), .memory rest)

/-- Remove the file of a run if it has one. -/
def drop (run : Run) (disk : Disk) : Disk :=
  match run with
  | .chunk file _ => file.drop disk
  | .memory _ => disk

/-- A bound on the features left in a run. -/
def unread : Run → Nat
  | .chunk _ reader => reader.remaining
  | .memory features => features.length

theorem unread_of_next {run after : Run} {disk : Disk} {feature : Feature}
    (h : run.next disk = (.ok (some feature), after)) : after.unread < run.unread := by
  cases run with
  | chunk file reader =>
      simp only [next, Prod.mk.injEq] at h
      obtain ⟨result, rfl⟩ := h
      exact ChunkReader.remaining_of_next (Prod.ext result rfl)
  | memory features =>
      cases features with
      | nil => simp [next] at h
      | cons first rest =>
          simp only [next, Prod.mk.injEq] at h
          obtain ⟨_, rfl⟩ := h
          simp [unread]

end Run

/-- A run together with the feature it shows. -/
structure MergeSource where
  head : Feature
  run : Run
  deriving DecidableEq, Repr

/-- A source with its neighbours on either side. -/
structure MergeSplit where
  before : List MergeSource
  least : MergeSource
  after : List MergeSource

namespace MergeSource

/-- The first source that shows the least key. -/
def splitLeast : List MergeSource → Option MergeSplit
  | [] => none
  | source :: rest =>
      match splitLeast rest with
      | none => some ⟨[], source, []⟩
      | some split =>
          if split.least.head.key < source.head.key then
            some { split with before := source :: split.before }
          else some ⟨[], source, rest⟩

theorem eq_of_splitLeast {sources : List MergeSource} {split : MergeSplit}
    (h : splitLeast sources = some split) :
    sources = split.before ++ split.least :: split.after := by
  induction sources generalizing split with
  | nil => simp [splitLeast] at h
  | cons source rest ih =>
      simp only [splitLeast] at h
      split at h
      next none =>
        cases h
        cases rest with
        | nil => rfl
        | cons other more =>
            simp only [splitLeast] at none
            split at none
            · simp at none
            · split at none <;> simp at none
      next inner found =>
        split at h
        · cases h
          simpa using ih found
        · cases h
          rfl

/-- A bound on the features left in sources. -/
def unread : List MergeSource → Nat
  | [] => 0
  | source :: rest => source.run.unread + 2 + unread rest

@[simp] theorem unread_nil : unread [] = 0 := rfl

@[simp] theorem unread_cons (source : MergeSource) (rest : List MergeSource) :
    unread (source :: rest) = source.run.unread + 2 + unread rest := rfl

@[simp] theorem unread_append (sources others : List MergeSource) :
    unread (sources ++ others) = unread sources + unread others := by
  induction sources with
  | nil => rw [List.nil_append, unread_nil, Nat.zero_add]
  | cons source rest ih =>
      rw [List.cons_append, unread_cons, unread_cons, ih]
      omega

end MergeSource

/-- Sorted features that are being merged. -/
structure Merge where
  /-- Runs with features left, in the order that breaks ties. -/
  sources : List MergeSource
  /-- The run that could not be read on. -/
  stalled : Option Run
  /-- The error that is still to be handed out. -/
  pending : Option SortError
  finished : Bool
  deriving DecidableEq, Repr

namespace Merge

/-- Open the files of chunks in order. -/
def openChunks [Codec] (disk : Disk) : List Chunk → Except SortError (List Run)
  | [] => .ok []
  | chunk :: rest =>
      match ChunkReader.openPath chunk.path disk with
      | .error error => .error error
      | .ok reader => (openChunks disk rest).map (.chunk chunk reader :: ·)

/-- Read the first feature of every run.  Runs without features are dropped. -/
def prime (disk : Disk) : List Run → Except SortError (List MergeSource) × Disk
  | [] => (.ok [], disk)
  | run :: rest =>
      match run.next disk with
      | (.error error, _) => (.error error, disk)
      | (.ok none, run) => prime (run.drop disk) rest
      | (.ok (some feature), run) =>
          let (result, disk) := prime disk rest
          (result.map (⟨feature, run⟩ :: ·), disk)

/-- Start merging chunk files, in the order that breaks ties, and sorted features in memory.  On
failure all files of the chunks are removed. -/
def ofRuns [Codec] (chunks : List Chunk) (residual : List Feature) (disk : Disk) :
    Except SortError Merge × Disk :=
  match openChunks disk chunks with
  | .error error => (.error error, Chunk.dropAll chunks disk)
  | .ok runs =>
      match prime disk (runs ++ [.memory residual]) with
      | (.error error, disk) => (.error error, Chunk.dropAll chunks disk)
      | (.ok sources, disk) => (.ok ⟨sources, none, none, false⟩, disk)

def live (merge : Merge) : Nat := merge.sources.length + merge.stalled.toList.length

/-- What `next` hands out: a feature or an error, or nothing once the merge is at its end. -/
abbrev Item := Option (Except SortError Feature)

/-- Hand out the feature that a source shows, once the source has been read on. -/
def pop (merge : Merge) (split : MergeSplit) (disk : Disk) : Item × Merge × Disk :=
  let feature := split.least.head
  match split.least.run.next disk with
  | (.ok (some head), run) =>
      (some (.ok feature), { merge with sources := split.before ++ ⟨head, run⟩ :: split.after },
        disk)
  | (.ok none, run) =>
      (some (.ok feature), { merge with sources := split.before ++ split.after }, run.drop disk)
  | (.error error, run) =>
      (some (.ok feature),
        { merge with
          sources := split.before ++ split.after
          stalled := some run
          pending := some error },
        disk)

/-- Hand out the next feature or the error that ends the merge. -/
def next (merge : Merge) (disk : Disk) : Item × Merge × Disk :=
  if merge.finished then (none, merge, disk)
  else
    match merge.pending with
    | some error => (some (.error error), { merge with pending := none, finished := true }, disk)
    | none =>
        match MergeSource.splitLeast merge.sources with
        | none => (none, { merge with finished := true }, disk)
        | some split => merge.pop split disk

/-- A bound on what is still handed out. -/
def unread (merge : Merge) : Nat :=
  MergeSource.unread merge.sources + merge.pending.toList.length

theorem unread_pop_lt {merge : Merge} {split : MergeSplit} (disk : Disk)
    (h : MergeSource.splitLeast merge.sources = some split) (quiet : merge.pending = none) :
    (merge.pop split disk).2.1.unread < merge.unread := by
  have shape := MergeSource.eq_of_splitLeast h
  have total : merge.unread = MergeSource.unread split.before + (split.least.run.unread + 2 +
      MergeSource.unread split.after) := by
    simp [unread, quiet, shape]
  rw [total]
  unfold pop
  simp only
  split
  next head run taken =>
    have := Run.unread_of_next taken
    simp only [unread, quiet, MergeSource.unread_append, MergeSource.unread_cons,
      Option.toList_none, List.length_nil]
    omega
  next run taken =>
    simp only [unread, quiet, MergeSource.unread_append, Option.toList_none, List.length_nil]
    omega
  next error run taken =>
    simp only [unread, MergeSource.unread_append, Option.toList_some, List.length_singleton]
    omega

theorem unread_next_lt {merge after : Merge} {disk behind : Disk} {item : Except SortError Feature}
    (h : merge.next disk = (some item, after, behind)) : after.unread < merge.unread := by
  unfold next at h
  split at h
  · simp at h
  · split at h
    next error waiting =>
      cases h
      simp [unread, waiting]
    next quiet =>
      split at h
      · simp at h
      next split found =>
        have := unread_pop_lt disk found quiet
        rw [h] at this
        exact this

def take : Nat → Merge → Disk → List Item × Merge × Disk
  | 0, merge, disk => ([], merge, disk)
  | count + 1, merge, disk =>
      let (item, merge, disk) := merge.next disk
      let (items, rest) := take count merge disk
      (item :: items, rest)

/-- Hand out everything that is left. -/
def drain (merge : Merge) (disk : Disk) : List (Except SortError Feature) × Merge × Disk :=
  match h : merge.next disk with
  | (none, merge, disk) => ([], merge, disk)
  | (some item, after, behind) =>
      have := unread_next_lt h
      let (items, merge, disk) := drain after behind
      (item :: items, merge, disk)
termination_by merge.unread

/-- Give the merge up: remove the files that are left. -/
def discard (merge : Merge) (disk : Disk) : Disk :=
  let disk := merge.sources.foldl (fun disk source => source.run.drop disk) disk
  merge.stalled.elim disk (·.drop disk)

end Merge
end TileBindery
