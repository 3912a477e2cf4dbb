import TileBindery.Proofs.Spill.SorterState

/-!
# Chunk files that cannot be read to their ends

A chunk file may be cut or damaged behind some of its features.  What a merge then hands out is a
front of all features in key order: the first fault follows a feature behind which every feature that
cannot be read belongs as well, because a run is read in its own order.  So nothing is handed out in
front of the error that would not have been handed out there had all files been sound.
-/

namespace TileBindery

namespace RunContents

/-- What can be read of a run is a front of some features, and all of them unless a fault follows. -/
structure FrontOf (contents : RunContents) (features : List Feature) : Prop where
  /-- What can be read comes first. -/
  front : contents.features <+: features
  /-- Without a fault nothing is missing. -/
  whole : contents.fault = none → contents.features = features

/-- What reading contents one by one gives. -/
def items (contents : RunContents) : List (Except SortError Feature) :=
  contents.features.map .ok ++ contents.fault.toList.map .error

end RunContents

namespace PlacedFeature

/-- A placed feature as it would be in a run that can be read to its end. -/
def sound (placed : PlacedFeature) : PlacedFeature := { placed with fault := none }

theorem map_sound_place (run : Nat) (fault : Option SortError) (position : Nat)
    (features : List Feature) :
    (place run fault position features).map sound = place run none position features := by
  induction features generalizing position with
  | nil => rfl
  | cons feature rest ih => simp [place, sound, ih]

theorem place_append (run position : Nat) (front behind : List Feature) :
    place run none position (front ++ behind) =
      place run none position front ++ place run none (position + front.length) behind := by
  induction front generalizing position with
  | nil => rfl
  | cons feature rest ih =>
      simp only [List.cons_append, place, ite_self, ih, List.length_cons]
      rw [Nat.add_right_comm, Nat.add_assoc]

/-- The fault of a run stands behind the last feature that can be read of it. -/
theorem exists_last_of_place (run : Nat) (fault : Option SortError) (position : Nat)
    {features : List Feature} (some : features ≠ []) :
    ∃ last ∈ place run fault position features, last.fault = fault ∧ last.run = run ∧
      last.feature ∈ features ∧ last.position < position + features.length := by
  induction features generalizing position with
  | nil => exact absurd rfl some
  | cons feature rest ih =>
      cases rest with
      | nil => exact ⟨_, List.mem_cons_self, rfl, rfl, List.mem_cons_self, Nat.lt_succ_self _⟩
      | cons second rest =>
          obtain ⟨last, member, own, number, feature_mem, below⟩ :=
            ih (position + 1) (List.cons_ne_nil _ _)
          refine ⟨last, List.mem_cons_of_mem _ member, own, number,
            List.mem_cons_of_mem _ feature_mem, ?_⟩
          simp only [List.length_cons] at below ⊢
          omega

/-- What is missing of runs is preceded by features of the same runs behind which a fault stands. -/
theorem exists_missing (number : Nat) {contents : List RunContents} {parts : List (List Feature)}
    (fronts : List.Forall₂ RunContents.FrontOf contents parts)
    (ascend : ∀ part ∈ parts, part.Pairwise fun a b => Sorter.keyOf a ≤ Sorter.keyOf b)
    (shown : ∀ each ∈ contents, each.features = [] → each.fault = none) :
    ∃ missing, (placeAll number (parts.map (⟨·, none⟩))).Perm
        ((placeAll number contents).map sound ++ missing) ∧
      ∀ placed ∈ missing, ∃ last ∈ placeAll number contents, last.fault ≠ none ∧
        Precedes last placed := by
  induction fronts generalizing number with
  | nil => exact ⟨[], .nil, by simp⟩
  | @cons first part rest others own _ ih =>
      obtain ⟨missing, perm, preceded⟩ := ih (number + 1)
        (fun each member => ascend each (List.mem_cons_of_mem _ member))
        (fun each member => shown each (List.mem_cons_of_mem _ member))
      obtain ⟨behind, whole⟩ := own.front
      refine ⟨place number none first.features.length behind ++ missing, ?_, ?_⟩
      · rw [List.map_cons, placeAll, placeAll, List.map_append, map_sound_place, ← whole,
          place_append, Nat.zero_add, List.append_assoc, List.append_assoc]
        refine List.Perm.append_left _ ((List.Perm.append_left _ perm).trans ?_)
        rw [← List.append_assoc, ← List.append_assoc]
        exact List.Perm.append_right _ List.perm_append_comm
      · intro placed member
        rcases List.mem_append.1 member with near | far
        · obtain ⟨placed_mem, run, position⟩ := of_mem_place near
          have fault : first.fault ≠ none := by
            intro sound
            rw [own.whole sound, List.append_right_eq_self] at whole
            exact List.not_mem_nil (whole ▸ placed_mem)
          have some : first.features ≠ [] :=
            fun empty => fault (shown first List.mem_cons_self empty)
          obtain ⟨last, last_mem, last_fault, last_run, feature_mem, below⟩ :=
            exists_last_of_place number first.fault 0 some
          have le : Sorter.keyOf last.feature ≤ Sorter.keyOf placed.feature := by
            have ascends := ascend part List.mem_cons_self
            rw [← whole] at ascends
            exact (List.pairwise_append.1 ascends).2.2 _ feature_mem _ placed_mem
          refine ⟨last, List.mem_append_left _ last_mem, last_fault ▸ fault, ?_⟩
          unfold Precedes key
          omega
        · obtain ⟨last, last_mem, faulty, before⟩ := preceded placed far
          exact ⟨last, List.mem_append_right _ last_mem, faulty, before⟩

theorem Precedes.refl (placed : PlacedFeature) : Precedes placed placed :=
  .inr ⟨rfl, .inr ⟨rfl, Nat.le_refl _⟩⟩

/-- Features in order begin with others in order if all that are left come behind them. -/
theorem prefix_inOrder {all front behind : List PlacedFeature} (places : all.Pairwise Before)
    (perm : all.Perm (front ++ behind)) (sorted : front.Pairwise Precedes)
    (later : ∀ placed ∈ front, ∀ other ∈ behind, Precedes placed other) :
    front <+: inOrder all := by
  refine ⟨inOrder behind, ?_⟩
  have same : (front ++ inOrder behind).Perm (inOrder all) :=
    ((inOrder_perm behind).append_left front).trans (perm.symm.trans (inOrder_perm all).symm)
  refine same.eq_of_pairwise ?_ ?_ (pairwise_inOrder all)
  · intro a b a_mem b_mem ab ba
    refine ab.antisymm places ((inOrder_perm all).mem_iff.1 (same.mem_iff.1 a_mem)) ?_ ba
    exact (inOrder_perm all).mem_iff.1 b_mem
  · refine List.pairwise_append.2 ⟨sorted, pairwise_inOrder behind, ?_⟩
    intro placed member other other_mem
    exact later placed member other ((inOrder_perm behind).mem_iff.1 other_mem)

/-- A list of placed features is sound, or there is a first one with a fault. -/
theorem sound_or_first_fault (l : List PlacedFeature) :
    (∀ placed ∈ l, placed.fault = none) ∨
      ∃ front placed behind error, l = front ++ placed :: behind ∧
        (∀ other ∈ front, other.fault = none) ∧ placed.fault = some error := by
  induction l with
  | nil => exact .inl (by simp)
  | cons first rest ih =>
      cases own : first.fault with
      | some error => exact .inr ⟨[], first, rest, error, rfl, by simp, own⟩
      | none =>
          rcases ih with sound | ⟨front, placed, behind, error, rfl, sound, fault⟩
          · exact .inl (by simpa [own] using sound)
          · exact .inr ⟨first :: front, placed, behind, error, rfl, by simpa [own] using sound,
              fault⟩

theorem map_feature_sound (l : List PlacedFeature) :
    (l.map sound).map (·.feature) = l.map (·.feature) := by
  rw [List.map_map]
  rfl

/-- What is handed out of fronts of runs is a front of what is handed out of the whole runs, and
all of it unless an error follows. -/
theorem handOut_of_fronts {contents : List RunContents} {parts : List (List Feature)}
    (fronts : List.Forall₂ RunContents.FrontOf contents parts)
    (ascend : ∀ part ∈ parts, part.Pairwise fun a b => Sorter.keyOf a ≤ Sorter.keyOf b)
    (shown : ∀ each ∈ contents, each.features = [] → each.fault = none) :
    ∃ handed : RunContents, handOut (inOrder (placeAll 0 contents)) = handed.items ∧
      handed.FrontOf ((inOrder (placeAll 0 (parts.map (⟨·, none⟩)))).map (·.feature)) := by
  obtain ⟨missing, perm, preceded⟩ := exists_missing 0 fronts ascend shown
  have places := before_placeAll 0 (parts.map fun part => (⟨part, none⟩ : RunContents))
  have sorted := pairwise_inOrder (placeAll 0 contents)
  have member {placed : PlacedFeature} :
      placed ∈ inOrder (placeAll 0 contents) ↔ placed ∈ placeAll 0 contents :=
    (inOrder_perm _).mem_iff
  replace perm := perm.trans (((inOrder_perm (placeAll 0 contents)).map sound).symm.append_right _)
  rcases sound_or_first_fault (inOrder (placeAll 0 contents)) with all_sound |
    ⟨front, placed, behind, error, split, front_sound, fault⟩
  · -- every missing feature follows a fault, so none is missing
    obtain rfl : missing = [] := by
      refine List.eq_nil_iff_forall_not_mem.2 fun placed missed => ?_
      obtain ⟨last, last_mem, faulty, -⟩ := preceded placed missed
      exact faulty (all_sound last (member.2 last_mem))
    have first := prefix_inOrder places perm (List.pairwise_map.2 sorted) (by simp)
    have whole := first.eq_of_length (by
      rw [(inOrder_perm _).length_eq, perm.length_eq, List.append_nil])
    refine ⟨⟨(inOrder (placeAll 0 contents)).map (·.feature), none⟩, ?_, ?_⟩
    · rw [handOut_of_sound all_sound, RunContents.items]
      simp
    · rw [← whole, map_feature_sound]
      exact ⟨List.prefix_refl _, fun _ => rfl⟩
  · -- whatever is missing follows a fault, and none is in front of the first
    rw [split, List.append_cons] at sorted perm
    obtain ⟨front_sorted, -, across⟩ := List.pairwise_append.1 sorted
    have first : (front ++ [placed]).map sound <+: inOrder (placeAll 0 (parts.map (⟨·, none⟩))) := by
      rw [@List.map_append _ _ sound _ behind, List.append_assoc] at perm
      refine prefix_inOrder places perm (List.pairwise_map.2 front_sorted) ?_
      intro _ mapped late later
      obtain ⟨early, early_mem, rfl⟩ := List.mem_map.1 mapped
      rcases List.mem_append.1 later with readable | missed
      · obtain ⟨late, late_mem, rfl⟩ := List.mem_map.1 readable
        exact across early early_mem late late_mem
      · obtain ⟨last, last_mem, faulty, before⟩ := preceded late missed
        refine Precedes.trans (b := last) ?_ before
        rw [← member, split, List.mem_append, List.mem_cons] at last_mem
        rcases last_mem with in_front | rfl | in_behind
        · exact absurd (front_sound last in_front) faulty
        · rcases List.mem_append.1 early_mem with in_front | own
          · exact (List.pairwise_append.1 front_sorted).2.2 early in_front last
              List.mem_cons_self
          · obtain rfl := List.mem_singleton.1 own
            exact .refl _
        · exact across early early_mem last in_behind
    refine ⟨⟨(front ++ [placed]).map (·.feature), some error⟩, ?_, ?_⟩
    · rw [split, handOut_of_fault front_sound fault, RunContents.items]
      simp
    · rw [← map_feature_sound]
      exact ⟨first.map _, nofun⟩

end PlacedFeature

namespace Chunk

/-- A chunk that can be opened and read shows a feature, unless it ends at once. -/
theorem fault_of_readable [Codec] {disk : Disk} {chunk : Chunk} (readable : ¬chunk.Unreadable disk)
    (empty : (chunk.contents disk).features = []) : (chunk.contents disk).fault = none := by
  rw [contents] at empty ⊢
  cases opened : ChunkReader.openPath chunk.path disk with
  | error error => exact absurd (.inl ⟨error, opened⟩) readable
  | ok reader =>
      rw [opened] at empty
      dsimp only [ChunkReader.contents] at empty ⊢
      cases taken : reader.next disk with
      | mk result after =>
          rcases result with error | (_ | feature)
          · exact absurd (.inr ⟨reader, error, opened, congrArg Prod.fst taken⟩) readable
          · rw [ChunkReader.readAll_of_none taken]
            rfl
          · rw [ChunkReader.readAll_of_some taken] at empty
            cases empty

end Chunk

namespace Sorter

/-- A sorter has accepted these features so far, but of its chunk files only a front may be left to
read: slices of the features went to chunk files, and the rest is in the buffer. -/
def Frays [Codec] (sorter : Sorter) (disk : Disk) (features : List Feature) : Prop :=
  ∃ slices : List (List Feature),
    List.Forall₂ (fun chunk slice => (chunk.contents disk).FrontOf (inKeyOrder slice))
      sorter.chunks slices ∧
      slices.flatten ++ sorter.buffer.toList = features

/-- Chunk files that are damaged still have a front of what they held. -/
theorem Holds.frays [Codec] {sorter : Sorter} {disk other : Disk} {features : List Feature}
    (lossless : sorter.config.compress = true → Codec.Lossless)
    (holds : sorter.Holds disk features)
    (fronts : ∀ chunk ∈ sorter.chunks,
      (chunk.contents other).FrontOf (chunk.contents disk).features) :
    sorter.Frays other features := by
  obtain ⟨slices, stored, whole⟩ := holds.forall₂_contents lossless
  refine ⟨slices, ?_, whole⟩
  refine ((List.forall₂_and_left _ _).2 ⟨fronts, stored⟩).imp fun chunk slice both => ?_
  obtain ⟨front, own⟩ := both
  rwa [own] at front

/-- A merge of chunk files that can be read in part hands out a front of all features in key order,
and all of them unless it ends with an error. -/
theorem Frays.sort [Codec] {sorter after : Sorter} {disk behind : Disk} {features : List Feature}
    {merge : Merge} (frays : sorter.Frays disk features)
    (sorted : sorter.sort disk = (.ok merge, after, behind)) :
    ∃ handed : RunContents, merge.Yields behind handed.items ∧
      handed.FrontOf (inKeyOrder features) := by
  obtain ⟨slices, fronts, rfl⟩ := frays
  rw [Sorter.sort, collecting_of_merge sorted] at sorted
  dsimp only at sorted
  cases started : Merge.ofRuns sorter.chunks (inKeyOrder sorter.buffer.toList) disk with
  | mk result last =>
  rw [started] at sorted
  cases sorted
  have ascends (features : List Feature) :
      (inKeyOrder features).Pairwise fun a b => keyOf a ≤ keyOf b :=
    (stableOrder_inKeyOrder features).ascending
  have readable : ¬∃ chunk ∈ sorter.chunks, chunk.Unreadable disk := by
    rw [← @Merge.ofRuns_fails_iff _ disk _ (inKeyOrder sorter.buffer.toList), started]
    simp
  have yields := Merge.yields_ofRuns started
    (fun chunk member => by
      obtain ⟨slice, -, front⟩ := exists_right_of_forall₂ fronts member
      exact ((ascends slice).sublist front.front.sublist).imp UInt64.le_iff_toNat_le.2)
    ((ascends _).imp UInt64.le_iff_toNat_le.2)
  have all : List.Forall₂ RunContents.FrontOf
      (sorter.chunks.map (Chunk.contents disk) ++ [⟨inKeyOrder sorter.buffer.toList, none⟩])
      ((slices ++ [sorter.buffer.toList]).map inKeyOrder) := by
    rw [List.map_append]
    refine List.rel_append ?_ (.cons ⟨List.prefix_refl _, fun _ => rfl⟩ .nil)
    rwa [List.forall₂_map_left_iff, List.forall₂_map_right_iff]
  obtain ⟨handed, same, front⟩ := PlacedFeature.handOut_of_fronts all
    (fun part member => by
      obtain ⟨slice, -, rfl⟩ := List.mem_map.1 member
      exact ascends slice)
    (fun each member => by
      rcases List.mem_append.1 member with stored | buffered
      · obtain ⟨chunk, chunk_mem, rfl⟩ := List.mem_map.1 stored
        exact Chunk.fault_of_readable fun unreadable => readable ⟨chunk, chunk_mem, unreadable⟩
      · rw [List.mem_singleton.1 buffered]
        exact fun _ => rfl)
  rw [same] at yields
  rw [map_feature_inOrder (forall₂_inKeyOrder _), List.flatten_append, List.flatten_singleton]
    at front
  exact ⟨handed, yields, front⟩

end Sorter
end TileBindery
