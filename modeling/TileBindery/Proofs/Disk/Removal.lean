import TileBindery.Proofs.Disk.Roads

/-!
# What a removal takes away

Removing what stands at a path takes away everything below it and, unless the path ends in a dot or a
double dot, also what the path leads to.  Nothing else goes, and no place is left without a directory
above it.
-/

namespace TileBindery

/-- A path ends in a name rather than in a dot, in a double dot or at the root. -/
def Path.EndsInName (path : Path) : Prop :=
  ∃ name, path.parts.getLast? = some name ∧ PathEnd.ofPart name = .name name

namespace Disk

variable {disk middle after other : Disk} {path : Path} {location : Location} {entry : DiskEntry}

/-! ### What stands at a path -/

theorem approach_of_find (found : disk.find path = .ok (location, entry)) :
    ∃ directory last, disk.approach path = .ok (directory, last) := by
  rw [find] at found
  split at found
  · cases found
  next approached => exact ⟨_, _, approached⟩
  next approached => exact ⟨_, _, approached⟩
  next approached => exact ⟨_, _, approached⟩

theorem lookup_of_find (found : disk.find path = .ok (location, entry)) :
    disk.lookup location = some entry := by
  rw [find] at found
  split at found
  · cases found
  next approached =>
    cases found
    exact solid_of_approach approached _ List.prefix_rfl
  next approached =>
    cases found
    exact (solid_of_approach approached).dropLast _ List.prefix_rfl
  next directory name _ =>
    rw [look] at found
    by_cases long : maxName < name.utf8ByteSize
    · simp [long] at found
    · rw [if_neg long] at found
      split at found
      · cases found
      · cases found
      next standing =>
        cases found
        exact Except.ok.inj standing
      next standing =>
        split at found
        · cases found
        · cases found
          exact Except.ok.inj standing

/-- What stands at a path depends on its way and on its place only. -/
theorem find_congr (way : other.approach path = disk.approach path)
    (place : other.lookup path.location = disk.lookup path.location) :
    other.find path = disk.find path := by
  rw [find, find, way]
  cases approached : disk.approach path with
  | error error => rfl
  | ok led =>
      obtain ⟨directory, last⟩ := led
      cases last with
      | here => rfl
      | above => rfl
      | name name =>
          rw [location_of_approach approached, PathEnd.location] at place
          simp only [look, place]

theorem holds_iff :
    disk.holds path = true ↔ ∃ location entry, disk.find path = .ok (location, entry) := by
  rw [holds]
  cases disk.find path with
  | error error => simp [Except.isOk, Except.toBool]
  | ok found => exact iff_of_true rfl ⟨found.1, found.2, rfl⟩

theorem not_holds_of_vacant (vacant : disk.lookup path.location = none) :
    disk.holds path = false := by
  rw [Bool.eq_false_iff, Ne, holds_iff]
  rintro ⟨location, entry, found⟩
  have stands := lookup_of_find found
  rw [location_of_find found, vacant] at stands
  cases stands

/-! ### Trees -/

/-- Whatever stands anywhere stands in a directory. -/
def Rooted (disk : Disk) : Prop :=
  ∀ location, disk.lookup location ≠ none → disk.lookup location.dropLast = some .directory

theorem Rooted.directory_above (rooted : disk.Rooted) {inner : Location}
    (below : location <+: inner) (proper : inner ≠ location) (stands : disk.lookup inner ≠ none) :
    disk.lookup location = some .directory := by
  obtain ⟨rest, rfl⟩ := below
  induction rest generalizing location with
  | nil => exact absurd (List.append_nil _) proper
  | cons name rest ih =>
      rw [List.append_cons] at proper stands
      have next : disk.lookup (location ++ [name]) ≠ none := by
        by_cases direct : rest = []
        · rwa [direct, List.append_nil] at stands
        · rw [ih (fun same => direct (List.append_right_eq_self.1 same)) stands]
          exact Option.some_ne_none _
      have above := rooted _ next
      rwa [List.dropLast_concat] at above

/-- A disk `after` entries have been removed, each with everything below it. -/
structure Prunes (disk after : Disk) : Prop where
  /-- What the files hold does not change. -/
  files : after.files = disk.files
  /-- Nothing comes, and nothing is replaced. -/
  entries : ∀ location, after.lookup location = disk.lookup location ∨
    after.lookup location = none
  /-- What is gone leaves nothing below it. -/
  below : ∀ location inner, location <+: inner →
    after.lookup location ≠ disk.lookup location → after.lookup inner = none

namespace Prunes

theorem refl (disk : Disk) : disk.Prunes disk :=
  ⟨rfl, fun _ => .inl rfl, fun _ _ _ changed => absurd rfl changed⟩

theorem stands (prunes : disk.Prunes after) (kept : after.lookup location = some entry) :
    disk.lookup location = some entry := by
  rcases prunes.entries location with same | gone
  · exact same ▸ kept
  · rw [gone] at kept
    cases kept

theorem vacant (prunes : disk.Prunes after) (free : disk.lookup location = none) :
    after.lookup location = none := by
  rcases prunes.entries location with same | gone
  · exact same.trans free
  · exact gone

theorem trans (first : disk.Prunes middle) (second : middle.Prunes after) : disk.Prunes after := by
  refine ⟨second.files.trans first.files, fun location => ?_, fun location inner below changed => ?_⟩
  · rcases second.entries location with same | gone
    · rw [same]
      exact first.entries location
    · exact .inr gone
  · by_cases early : middle.lookup location = disk.lookup location
    · exact second.below location inner below (early ▸ changed)
    · exact second.vacant (first.below location inner below early)

theorem rooted (prunes : disk.Prunes after) (rooted : disk.Rooted) : after.Rooted := by
  intro location stands
  by_cases above : after.lookup location.dropLast = disk.lookup location.dropLast
  · rw [above]
    refine rooted location fun free => stands (prunes.vacant free)
  · exact absurd (prunes.below _ _ (List.dropLast_prefix location) above) stands

/-- A path is followed as before, or leads nowhere. -/
theorem enter {directory next : Location} {part : String} (prunes : disk.Prunes after)
    (entered : disk.enter directory part = .ok next) :
    after.enter directory part = .ok next ∨ after.enter directory part = .error .notFound := by
  rw [Disk.enter, look] at entered ⊢
  split at entered
  next here => exact .inl (by rw [if_pos here, entered])
  next inner =>
    rw [if_neg inner]
    split at entered
    next above => exact .inl (by rw [if_pos above, entered])
    next named =>
      rw [if_neg named]
      by_cases long : maxName < part.utf8ByteSize
      · simp [long] at entered
      · rw [if_neg long] at entered ⊢
        rcases prunes.entries (directory ++ [part]) with same | gone
        · exact .inl (by rw [same, entered])
        · exact .inr (by rw [gone])

theorem walk {parts : List String} {start : Location} {found : Location × PathEnd}
    (prunes : disk.Prunes after) (walked : disk.walk start parts = .ok found) :
    after.walk start parts = .ok found ∨ after.walk start parts = .error .notFound := by
  induction parts generalizing start with
  | nil => exact .inl walked
  | cons part rest ih =>
      cases rest with
      | nil => exact .inl walked
      | cons next more =>
          rw [Disk.walk] at walked ⊢
          · cases entered : disk.enter start part with
            | error error => simp [entered] at walked
            | ok behind =>
                rw [entered] at walked
                rcases prunes.enter entered with same | lost
                · rw [same]
                  exact ih walked
                · exact .inr (by rw [lost])
          · simp
          · simp

theorem approach {found : Location × PathEnd} (prunes : disk.Prunes after)
    (approached : disk.approach path = .ok found) :
    after.approach path = .ok found ∨ after.approach path = .error .notFound := by
  have walked := prunes.walk (walk_of_approach approached)
  rw [Disk.approach] at approached ⊢
  split at approached
  · cases approached
  next noNul =>
    split at approached
    · cases approached
    next short => rwa [if_neg noNul, if_neg short]

theorem approach_eq (prunes : disk.Prunes after) {found : Location × PathEnd}
    (approached : after.approach path = .ok found) : disk.approach path = .ok found :=
  approach_of_keeps (fun _ _ => prunes.stands) approached

/-- What stands at a path has stood there before. -/
theorem holds (prunes : disk.Prunes after) (held : after.holds path = true) :
    disk.holds path = true := by
  obtain ⟨location, entry, found⟩ := holds_iff.1 held
  obtain ⟨directory, last, approached⟩ := approach_of_find found
  have stands := lookup_of_find found
  rw [location_of_find found] at stands
  have same := find_congr ((prunes.approach_eq approached).trans approached.symm)
    ((prunes.stands stands).trans stands.symm)
  exact holds_iff.2 ⟨location, entry, same.trans found⟩

/-- What has stood at a path is gone with all below it when nothing stands there any more, unless the
path has lost its way. -/
theorem gone (prunes : disk.Prunes after) (held : disk.holds path = true)
    (free : after.holds path = false) :
    (∀ inner, path.location <+: inner → after.lookup inner = none) ∨
      after.approach path = .error .notFound := by
  obtain ⟨location, entry, found⟩ := holds_iff.1 held
  obtain ⟨directory, last, approached⟩ := approach_of_find found
  rcases prunes.approach approached with way | lost
  · have changed : after.lookup path.location ≠ disk.lookup path.location := by
      intro same
      have again := find_congr (way.trans approached.symm) same
      rw [holds_iff.2 ⟨_, _, again.trans found⟩] at free
      cases free
    exact .inl fun inner below => prunes.below _ inner below changed
  · exact .inr lost

end Prunes

/-! ### Removals -/

theorem lookup_unbind_other (apart : location ≠ path.location) :
    (disk.unbind path.location).lookup location = disk.lookup location := by
  by_cases root : location = []
  · rw [root, lookup_nil, lookup_nil]
  · rw [lookup_unbind root, if_neg apart]

theorem length_lt_of_below {root : Location} (below : root <+: location)
    (proper : location ≠ root) : root.length < location.length := by
  refine Nat.lt_of_le_of_ne below.length_le fun same => ?_
  exact proper (below.eq_of_length same).symm

/-- Strictly below a place nothing stands once it has been cleared. -/
theorem lookup_clear_below {root : Location} (disk : Disk) (below : root <+: location)
    (proper : location ≠ root) : (disk.clear root).lookup location = none := by
  have longer := length_lt_of_below below proper
  have inner : location ≠ [] := List.ne_nil_of_length_pos (Nat.zero_lt_of_lt longer)
  have kept := lookup_filter disk.entries
    (fun other => !(root.isPrefixOf other && root.length < other.length)) location
  rw [lookup_eq inner]
  simpa [clear, List.isPrefixOf_iff_prefix.2 below, longer] using kept

theorem lookup_clear_root (disk : Disk) (root : Location) :
    (disk.clear root).lookup root = disk.lookup root := by
  by_cases top : root = []
  · rw [top, lookup_nil, lookup_nil]
  · have kept := lookup_filter disk.entries
      (fun other => !(root.isPrefixOf other && root.length < other.length)) root
    rw [lookup_eq top, lookup_eq top]
    simpa [clear] using kept

theorem below_of_vacant {root : Location}
    (vacant : ∀ inner, root <+: inner → inner ≠ root → disk.lookup inner = none) :
    disk.below root = [] := by
  rw [below, List.filterMap_eq_nil_iff]
  rintro ⟨inner, entry⟩ member
  rw [if_neg]
  rw [Bool.and_eq_true, List.isPrefixOf_iff_prefix, decide_eq_true_eq]
  rintro ⟨within, longer⟩
  have inside : inner ≠ [] := List.ne_nil_of_length_pos (Nat.zero_lt_of_lt longer)
  have free := vacant inner within fun same => Nat.ne_of_gt longer (congrArg List.length same)
  rw [lookup_eq inside, List.lookup_eq_none_iff] at free
  simpa using free _ member

theorem vacant_of_below {root : Location} (nothing : disk.below root = []) :
    ∀ inner, root <+: inner → inner ≠ root → disk.lookup inner = none := by
  intro inner within proper
  have longer := length_lt_of_below within proper
  rw [lookup_eq (List.ne_nil_of_length_pos (Nat.zero_lt_of_lt longer)), List.lookup_eq_none_iff]
  rintro ⟨other, entry⟩ member
  rw [below, List.filterMap_eq_nil_iff] at nothing
  have skipped := nothing _ member
  rw [bne_iff_ne]
  rintro rfl
  rw [if_pos] at skipped
  · cases skipped
  · rw [Bool.and_eq_true, List.isPrefixOf_iff_prefix, decide_eq_true_eq]
    exact ⟨within, longer⟩

/-- What an attempt to remove what stands at a path leaves. -/
structure Removes (disk : Disk) (path : Path) (result : Except DeviceError Unit) (after : Disk) :
    Prop where
  /-- Trees go as a whole. -/
  prunes : disk.Prunes after
  /-- What goes stood at the place of the path or below it. -/
  inside : ∀ location, after.lookup location ≠ disk.lookup location → path.location <+: location
  /-- Everything below that place goes. -/
  gone : ∀ location, path.location <+: location → location ≠ path.location →
    after.lookup location = none
  /-- In the end nothing stands at the path. -/
  done : result = .ok () → after.holds path = false
  /-- Only a path that does not end in a name is refused. -/
  refused : ∀ error, result = .error error → ¬path.EndsInName

theorem prunes_clear (disk : Disk) (root : Location) : disk.Prunes (disk.clear root) := by
  have changes (location : Location)
      (changed : (disk.clear root).lookup location ≠ disk.lookup location) :
      root <+: location ∧ location ≠ root := by
    constructor
    · by_cases within : root <+: location
      · exact within
      · exact absurd (lookup_clear disk within) changed
    · rintro rfl
      exact changed (lookup_clear_root disk location)
  refine ⟨rfl, fun location => ?_, fun location inner below changed => ?_⟩
  · by_cases same : (disk.clear root).lookup location = disk.lookup location
    · exact .inl same
    · exact .inr (lookup_clear_below disk (changes location same).1 (changes location same).2)
  · obtain ⟨within, proper⟩ := changes location changed
    refine lookup_clear_below disk (within.trans below) ?_
    rintro rfl
    exact proper (within.eq_of_length (Nat.le_antisymm within.length_le below.length_le)).symm

/-- An entry with nothing below it can be removed. -/
theorem prunes_unbind
    (vacant : ∀ inner, path.location <+: inner → inner ≠ path.location →
      disk.lookup inner = none)
    (inner : path.location ≠ []) : disk.Prunes (disk.unbind path.location) := by
  have own : (disk.unbind path.location).lookup path.location = none := by
    rw [lookup_unbind inner, if_pos rfl]
  refine ⟨rfl, fun location => ?_, fun location inner below changed => ?_⟩
  · by_cases same : location = path.location
    · rw [same]
      exact .inr own
    · exact .inl (lookup_unbind_other same)
  · obtain rfl : location = path.location :=
      Classical.byContradiction fun apart => changed (lookup_unbind_other apart)
    by_cases same : inner = path.location
    · rw [same, own]
    · rw [lookup_unbind_other same, vacant inner below same]

/-- A part that ends a path is a name if the path ends with that name. -/
theorem endsInName_of_walk {parts : List String} {start directory : Location} {last : PathEnd}
    {name : String} (walked : disk.walk start parts = .ok (directory, last))
    (ends : parts.getLast? = some name) : last = PathEnd.ofPart name := by
  induction parts generalizing start with
  | nil => simp at ends
  | cons part rest ih =>
      cases rest with
      | nil =>
          cases walked
          rw [List.getLast?_singleton] at ends
          cases ends
          rfl
      | cons next more =>
          rw [Disk.walk] at walked
          · split at walked
            · cases walked
            · exact ih walked (by rwa [List.getLast?_cons_cons] at ends)
          · simp

theorem not_endsInName {directory : Location} {last : PathEnd}
    (approached : disk.approach path = .ok (directory, last)) (other : ∀ name, last ≠ .name name) :
    ¬path.EndsInName := by
  rintro ⟨name, ends, named⟩
  rw [endsInName_of_walk (walk_of_approach approached) ends, named] at other
  exact other name rfl

theorem removes_clear (result : Except DeviceError Unit)
    (done : result = .ok () → (disk.clear path.location).holds path = false)
    (refused : ∀ error, result = .error error → ¬path.EndsInName) :
    disk.Removes path result (disk.clear path.location) where
  prunes := prunes_clear disk path.location
  inside _ changed :=
    Classical.byContradiction fun apart => changed (lookup_clear disk apart)
  gone _ below proper := lookup_clear_below disk below proper
  done := done
  refused := refused

theorem removeDirectory_of_vacant {directory : Location} {name : String}
    (found : disk.find path = .ok (path.location, .directory))
    (approached : disk.approach path = .ok (directory, .name name))
    (vacant : ∀ inner, path.location <+: inner → inner ≠ path.location →
      disk.lookup inner = none) :
    disk.removeDirectory path = .ok (disk.unbind path.location) := by
  rw [removeDirectory, approached]
  dsimp only
  rw [findDirectory, found]
  dsimp only
  rw [below_of_vacant vacant]
  rfl

theorem removes_tree (found : disk.find path = .ok (location, .directory)) :
    disk.Removes path (disk.removeTree path).1 (disk.removeTree path).2 := by
  obtain rfl := location_of_find found
  obtain ⟨directory, last, approached⟩ := approach_of_find found
  have emptied := prunes_clear disk path.location
  have place := lookup_clear_root disk path.location
  have vacant : ∀ inner, path.location <+: inner → inner ≠ path.location →
      (disk.clear path.location).lookup inner = none :=
    fun inner below proper => lookup_clear_below disk below proper
  rw [removeTree, findDirectory, found]
  dsimp only
  rcases emptied.approach approached with way | lost
  · have still := find_congr (way.trans approached.symm) place
    cases last with
    | here =>
        rw [removeDirectory, way]
        exact removes_clear _ (by rintro ⟨⟩) fun _ _ => not_endsInName approached (by simp)
    | above =>
        rw [removeDirectory, way]
        exact removes_clear _ (by rintro ⟨⟩) fun _ _ => not_endsInName approached (by simp)
    | name name =>
        have top : path.location ≠ [] := by
          rw [location_of_approach approached, PathEnd.location]
          exact List.append_ne_nil_of_right_ne_nil _ (List.cons_ne_nil _ _)
        rw [removeDirectory_of_vacant (still.trans found) way vacant]
        refine ⟨emptied.trans (prunes_unbind vacant top), fun location changed => ?_,
          fun location below proper => ?_, fun _ => ?_, by rintro _ ⟨⟩⟩
        · refine Classical.byContradiction fun apart => changed ?_
          dsimp only
          rw [lookup_unbind_other, lookup_clear disk apart]
          rintro rfl
          exact apart List.prefix_rfl
        · dsimp only
          rw [lookup_unbind_other proper, vacant location below proper]
        · exact not_holds_of_vacant (by rw [lookup_unbind top, if_pos rfl])
  · rw [removeDirectory, lost]
    refine removes_clear _ (fun _ => ?_) (by rintro _ ⟨⟩)
    rw [Bool.eq_false_iff, Ne, holds_iff]
    rintro ⟨_, _, standing⟩
    obtain ⟨_, _, again⟩ := approach_of_find standing
    rw [lost] at again
    cases again

end Disk
end TileBindery
