import TileBindery.Disk.Basic
import TileBindery.Proofs.Disk.Paths

/-!
# What stands on a disk

Every operation on a path comes down to three things: whether the directories in front of its last
part are there, what stands at the place of the path, and what the files hold.  The main statements
read the operations off these three, and say that a path reaches its place as long as the
directories on the way stay.
-/

namespace TileBindery

/-- The place that a path leads to, given the directory of its last part. -/
def PathEnd.location (directory : Location) : PathEnd → Location
  | .name text => directory ++ [text]
  | .here => directory
  | .above => directory.dropLast

namespace Disk

/-! ### Entries by place -/

theorem lookup_filter (entries : List (Location × DiskEntry)) (keep : Location → Bool)
    (location : Location) :
    (entries.filter fun entry => keep entry.1).lookup location =
      if keep location then entries.lookup location else none := by
  induction entries with
  | nil => simp
  | cons entry rest ih =>
      obtain ⟨place, stands⟩ := entry
      by_cases same : location = place
      · subst same
        by_cases kept : keep location
        · simp [kept]
        · simp [kept, ih]
      · have other : (location == place) = false := by simpa using same
        by_cases kept : keep place
        · simp [kept, List.lookup_cons, other, ih]
        · simp [kept, List.lookup_cons, other, ih]

theorem lookup_eq {location : Location} (inner : location ≠ []) (disk : Disk) :
    disk.lookup location = disk.entries.lookup location := by
  cases location with
  | nil => exact absurd rfl inner
  | cons name rest => rfl

@[simp]
theorem lookup_nil (disk : Disk) : disk.lookup [] = some .directory := rfl

theorem lookup_bind {location : Location} (inner : location ≠ []) (disk : Disk)
    (place : Location) (entry : DiskEntry) :
    (disk.bind place entry).lookup location =
      if location = place then some entry else disk.lookup location := by
  rw [lookup_eq inner, lookup_eq inner, bind, List.lookup_cons]
  by_cases same : location = place
  · simp [same]
  · have other : (location == place) = false := by simpa using same
    have kept := lookup_filter disk.entries (fun other => decide (other ≠ place)) location
    rw [if_neg same, other]
    simpa [same] using kept

theorem lookup_unbind {location : Location} (inner : location ≠ []) (disk : Disk)
    (place : Location) :
    (disk.unbind place).lookup location =
      if location = place then none else disk.lookup location := by
  rw [lookup_eq inner, lookup_eq inner, unbind]
  have kept := lookup_filter disk.entries (fun other => decide (other ≠ place)) location
  by_cases same : location = place
  · simpa [same] using kept
  · simpa [same] using kept

theorem lookup_addFile {location : Location} (inner : location ≠ []) (disk : Disk)
    (place : Location) (octets : Bytes) :
    (disk.addFile place octets).lookup location =
      if location = place then some (.file disk.files.length) else disk.lookup location := by
  rw [← lookup_bind inner, lookup_eq inner, lookup_eq inner]
  rfl

@[simp]
theorem lookup_setContents (disk : Disk) (number : Nat) (octets : Bytes) (location : Location) :
    (disk.setContents number octets).lookup location = disk.lookup location := by
  cases location <;> rfl

/-! ### Paths that reach their places -/

theorem eq_goOn_of_enter {disk : Disk} {directory next : Location} {part : String}
    (entered : disk.enter directory part = .ok next) : next = Path.goOn directory part := by
  rw [enter, look] at entered
  rw [Path.goOn]
  split at entered
  next here =>
    cases entered
    rw [if_pos here]
  next name =>
    rw [if_neg name]
    split at entered
    next above =>
      cases entered
      rw [if_pos above]
    next inner =>
      rw [if_neg inner]
      split at entered
      · simp at entered
      · simp at entered
      · simp at entered
      · cases entered
        rfl

/-- A part that leads on still does as long as the directory that it names stays. -/
theorem enter_of_keeps {disk other : Disk} {directory next : Location} {part : String}
    (keeps : disk.lookup (directory ++ [part]) = some .directory →
      other.lookup (directory ++ [part]) = some .directory)
    (entered : disk.enter directory part = .ok next) :
    other.enter directory part = .ok next := by
  unfold enter at entered ⊢
  split at entered
  next here => rw [if_pos here, entered]
  next name =>
    rw [if_neg name]
    split at entered
    next above => rw [if_pos above, entered]
    next inner =>
      rw [if_neg inner]
      unfold look at entered ⊢
      by_cases long : maxName < part.utf8ByteSize
      · simp [long] at entered
      · simp only [if_neg long] at entered ⊢
        cases found : disk.lookup (directory ++ [part]) with
        | none => simp [found] at entered
        | some entry =>
            cases entry with
            | file number => simp [found] at entered
            | directory =>
                rw [keeps found]
                simpa [found] using entered

theorem location_of_walk {disk : Disk} {parts : List String} {start directory : Location}
    {last : PathEnd} (walked : disk.walk start parts = .ok (directory, last)) :
    parts.foldl Path.goOn start = last.location directory := by
  induction parts generalizing start with
  | nil =>
      cases walked
      rfl
  | cons part rest ih =>
      cases rest with
      | nil =>
          cases walked
          rw [List.foldl_cons, List.foldl_nil, Path.goOn, PathEnd.ofPart]
          by_cases here : part = "."
          · simp [here, PathEnd.location]
          · by_cases above : part = ".."
            · simp [above, PathEnd.location]
            · simp [here, above, PathEnd.location]
      | cons next more =>
          rw [walk] at walked
          · cases entered : disk.enter start part with
            | error error => simp [entered] at walked
            | ok behind =>
                rw [entered] at walked
                rw [List.foldl_cons, ← eq_goOn_of_enter entered]
                exact ih walked
          · simp

/-- A path is followed as before as long as directories with names of the path stay. -/
theorem walk_of_keeps {disk other : Disk} {parts names : List String}
    {start directory : Location} {last : PathEnd}
    (keeps : ∀ location, (∀ name ∈ location, name ∈ names) →
      disk.lookup location = some .directory → other.lookup location = some .directory)
    (start_mem : ∀ name ∈ start, name ∈ names) (parts_mem : ∀ part ∈ parts, part ∈ names)
    (walked : disk.walk start parts = .ok (directory, last)) :
    other.walk start parts = .ok (directory, last) := by
  induction parts generalizing start with
  | nil => exact walked
  | cons part rest ih =>
      cases rest with
      | nil => exact walked
      | cons next more =>
          have part_mem : part ∈ names := parts_mem part List.mem_cons_self
          rw [walk] at walked ⊢
          · cases entered : disk.enter start part with
            | error error => simp [entered] at walked
            | ok behind =>
                rw [entered] at walked
                have inner : ∀ name ∈ start ++ [part], name ∈ names := by
                  intro name member
                  rcases List.mem_append.1 member with front | own
                  · exact start_mem name front
                  · exact List.mem_singleton.1 own ▸ part_mem
                rw [enter_of_keeps (keeps _ inner) entered]
                refine ih ?_ (fun name member => parts_mem name (List.mem_cons_of_mem _ member))
                  walked
                intro name member
                rw [eq_goOn_of_enter entered] at member
                rcases Path.mem_of_mem_goOn member with front | rfl
                · exact start_mem name front
                · exact part_mem
          · simp
          · simp

/-- Everything in front of the last part of a path is there, and the last part is a name that a file
can have. -/
def Reaches (disk : Disk) (path : Path) : Prop :=
  ∃ directory name, disk.approach path = .ok (directory, .name name) ∧ path.slash = false ∧
    name.utf8ByteSize ≤ maxName

theorem walk_of_approach {disk : Disk} {path : Path} {found : Location × PathEnd}
    (approached : disk.approach path = .ok found) : disk.walk [] path.parts = .ok found := by
  rw [approach] at approached
  split at approached
  · simp at approached
  · split at approached
    · simp at approached
    · exact approached

theorem location_of_approach {disk : Disk} {path : Path} {directory : Location} {last : PathEnd}
    (approached : disk.approach path = .ok (directory, last)) :
    path.location = last.location directory :=
  location_of_walk (walk_of_approach approached)

theorem approach_of_keeps {disk other : Disk} {path : Path} {found : Location × PathEnd}
    (keeps : ∀ location, (∀ name ∈ location, name ∈ path.parts) →
      disk.lookup location = some .directory → other.lookup location = some .directory)
    (approached : disk.approach path = .ok found) : other.approach path = .ok found := by
  have walked := walk_of_keeps keeps (by simp) (fun _ member => member)
    (walk_of_approach approached)
  unfold approach at approached ⊢
  split at approached
  · simp at approached
  next noNul =>
    split at approached
    · simp at approached
    next short => rw [if_neg noNul, if_neg short, walked]

/-- A path reaches its place as long as directories with names of the path stay. -/
theorem Reaches.of_keeps {disk other : Disk} {path : Path} (reaches : disk.Reaches path)
    (keeps : ∀ location, (∀ name ∈ location, name ∈ path.parts) →
      disk.lookup location = some .directory → other.lookup location = some .directory) :
    other.Reaches path := by
  obtain ⟨directory, name, approached, rest⟩ := reaches
  exact ⟨directory, name, approach_of_keeps keeps approached, rest⟩

theorem Reaches.location_ne_nil {disk : Disk} {path : Path} (reaches : disk.Reaches path) :
    path.location ≠ [] := by
  obtain ⟨directory, name, approached, -⟩ := reaches
  rw [location_of_approach approached, PathEnd.location]
  simp

theorem Reaches.slot {disk : Disk} {path : Path} (reaches : disk.Reaches path) :
    disk.slot path = .ok (path.location, disk.lookup path.location) := by
  obtain ⟨directory, name, approached, slash, fits⟩ := reaches
  rw [location_of_approach approached]
  simp [Disk.slot, approached, slash, look, Nat.not_lt.2 fits, Except.map, PathEnd.location]

theorem Reaches.findFile {disk : Disk} {path : Path} {number : Nat} (reaches : disk.Reaches path)
    (stands : disk.lookup path.location = some (.file number)) :
    disk.findFile path = .ok (path.location, number) := by
  obtain ⟨directory, name, approached, slash, fits⟩ := reaches
  rw [location_of_approach approached, PathEnd.location] at stands ⊢
  simp [Disk.findFile, find, approached, slash, look, Nat.not_lt.2 fits, stands]

/-- Where a path leads and nothing stands, nothing is found. -/
theorem Reaches.find_of_vacant {disk : Disk} {path : Path} (reaches : disk.Reaches path)
    (vacant : disk.lookup path.location = none) : disk.find path = .error .notFound := by
  obtain ⟨directory, name, approached, -, fits⟩ := reaches
  rw [location_of_approach approached, PathEnd.location] at vacant
  simp [Disk.find, approached, look, Nat.not_lt.2 fits, vacant]

theorem Reaches.mapFile {disk : Disk} {path : Path} {number : Nat} (reaches : disk.Reaches path)
    (stands : disk.lookup path.location = some (.file number)) :
    disk.mapFile path = .ok number := by
  obtain ⟨directory, name, approached, slash, fits⟩ := reaches
  rw [location_of_approach approached, PathEnd.location] at stands
  simp [Disk.mapFile, find, approached, slash, look, Nat.not_lt.2 fits, stands]

/-- A slot with no directory in it is the place of a path that reaches it. -/
theorem reaches_of_slot {disk : Disk} {path : Path} {location : Location}
    {entry : Option DiskEntry} (found : disk.slot path = .ok (location, entry))
    (free : entry ≠ some .directory) :
    disk.Reaches path ∧ location = path.location ∧ entry = disk.lookup path.location := by
  have reaches : disk.Reaches path := by
    rw [Disk.slot] at found
    cases approached : disk.approach path with
    | error error => simp [approached] at found
    | ok led =>
        obtain ⟨directory, last⟩ := led
        cases last with
        | here =>
            simp only [approached, Except.ok.injEq, Prod.mk.injEq] at found
            exact absurd found.2.symm free
        | above =>
            simp only [approached, Except.ok.injEq, Prod.mk.injEq] at found
            exact absurd found.2.symm free
        | name name =>
            simp only [approached] at found
            split at found
            · simp at found
            next slash =>
              refine ⟨directory, name, approached, by simpa using slash, ?_⟩
              by_cases long : maxName < name.utf8ByteSize
              · simp [look, long, Except.map] at found
              · exact Nat.not_lt.1 long
  rw [reaches.slot] at found
  cases found
  exact ⟨reaches, rfl, rfl⟩

theorem reaches_of_findFile {disk : Disk} {path : Path} {location : Location} {number : Nat}
    (found : disk.findFile path = .ok (location, number)) :
    disk.Reaches path ∧ location = path.location ∧
      disk.lookup path.location = some (.file number) := by
  rw [Disk.findFile, find] at found
  cases approached : disk.approach path with
  | error error => simp [approached] at found
  | ok led =>
      obtain ⟨directory, last⟩ := led
      cases last with
      | here => simp [approached] at found
      | above => simp [approached] at found
      | name name =>
          simp only [approached, look] at found
          by_cases long : maxName < name.utf8ByteSize
          · simp [long] at found
          · simp only [if_neg long] at found
            rw [location_of_approach approached, PathEnd.location]
            cases stands : disk.lookup (directory ++ [name]) with
            | none => simp [stands] at found
            | some entry =>
                cases entry with
                | directory => simp [stands] at found
                | file other =>
                    cases slash : path.slash with
                    | true => simp [stands, slash] at found
                    | false =>
                        simp only [stands, slash, Bool.false_eq_true, if_false, Except.ok.injEq,
                          Prod.mk.injEq] at found
                        obtain ⟨rfl, rfl⟩ := found
                        exact ⟨⟨directory, name, approached, slash, Nat.not_lt.1 long⟩, rfl, rfl⟩

theorem fileAt_iff {disk : Disk} {path : Path} {number : Nat} :
    disk.fileAt path = .ok number ↔
      disk.Reaches path ∧ disk.lookup path.location = some (.file number) := by
  rw [fileAt]
  constructor
  · intro found
    cases standing : disk.findFile path with
    | error error => simp [standing, Except.map] at found
    | ok place =>
        simp only [standing, Except.map, Except.ok.injEq] at found
        obtain ⟨reaches, -, stands⟩ := reaches_of_findFile standing
        exact ⟨reaches, found ▸ stands⟩
  · rintro ⟨reaches, stands⟩
    rw [reaches.findFile stands]
    rfl

/-- A path leads to a file as before if no directory has come or gone and its own place is as
before. -/
theorem fileAt_congr {disk other : Disk} {path : Path} {number : Nat}
    (directories : ∀ location,
      other.lookup location = some .directory ↔ disk.lookup location = some .directory)
    (place : other.lookup path.location = disk.lookup path.location) :
    other.fileAt path = .ok number ↔ disk.fileAt path = .ok number := by
  have reaches : other.Reaches path ↔ disk.Reaches path :=
    ⟨fun led => led.of_keeps fun location _ => (directories location).1,
      fun led => led.of_keeps fun location _ => (directories location).2⟩
  rw [fileAt_iff, fileAt_iff, reaches, place]

/-- What reading a path gives is what the file at its place holds. -/
theorem read_iff {disk : Disk} {path : Path} {octets : Bytes} :
    disk.read path = .ok octets ↔
      disk.Reaches path ∧ ∃ number, disk.lookup path.location = some (.file number) ∧
        disk.contents number = octets := by
  rw [read]
  constructor
  · intro found
    cases standing : disk.fileAt path with
    | error error => simp [standing, Except.map] at found
    | ok number =>
        simp only [standing, Except.map, Except.ok.injEq] at found
        obtain ⟨reaches, stands⟩ := fileAt_iff.1 standing
        exact ⟨reaches, number, stands, found⟩
  · rintro ⟨reaches, number, stands, rfl⟩
    rw [fileAt_iff.2 ⟨reaches, stands⟩]
    rfl

end Disk
end TileBindery
