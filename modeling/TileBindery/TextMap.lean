/-!
# Maps with text keys

A finite map from texts to values keeps its entries in ascending key order, each key once.  The
order is part of the type, so a map has exactly one list of entries and equal maps are equal.
-/

namespace TileBindery

/-- A finite map from texts, listed in ascending key order. -/
structure TextMap (α : Type) where
  entries : List (String × α)
  /-- Keys ascend, hence none occurs twice. -/
  ascending : entries.Pairwise fun a b => a.1 < b.1
  deriving Repr

namespace TextMap

variable {α : Type}

@[ext]
theorem ext {a b : TextMap α} (h : a.entries = b.entries) : a = b := by
  cases a
  cases b
  simp_all

instance [DecidableEq α] : DecidableEq (TextMap α) := fun a b =>
  decidable_of_iff (a.entries = b.entries) ⟨TextMap.ext, fun h => h ▸ rfl⟩

def empty : TextMap α := ⟨[], .nil⟩

instance : Inhabited (TextMap α) := ⟨empty⟩

def isEmpty (map : TextMap α) : Bool := map.entries.isEmpty

/-- Update the entry of `key` in a list of ascending entries.  `change` receives the old value. -/
def alterEntries (key : String) (change : Option α → α) : List (String × α) → List (String × α)
  | [] => [(key, change none)]
  | (other, value) :: rest =>
      if key < other then (key, change none) :: (other, value) :: rest
      else if key = other then (key, change (some value)) :: rest
      else (other, value) :: alterEntries key change rest

theorem mem_alterEntries {key : String} {change : Option α → α} {entry : String × α}
    {entries : List (String × α)} (h : entry ∈ alterEntries key change entries) :
    entry.1 = key ∨ entry ∈ entries := by
  induction entries with
  | nil =>
      simp only [alterEntries, List.mem_singleton] at h
      exact .inl (h ▸ rfl)
  | cons head rest ih =>
      obtain ⟨other, value⟩ := head
      simp only [alterEntries] at h
      split at h
      · rcases List.mem_cons.1 h with rfl | h
        · exact .inl rfl
        · exact .inr h
      split at h
      · rcases List.mem_cons.1 h with rfl | h
        · exact .inl rfl
        · exact .inr (List.mem_cons_of_mem _ h)
      · rcases List.mem_cons.1 h with rfl | h
        · exact .inr (List.mem_cons_self ..)
        · exact (ih h).imp_right (List.mem_cons_of_mem _)

theorem ascending_alterEntries (key : String) (change : Option α → α)
    {entries : List (String × α)} (h : entries.Pairwise fun a b => a.1 < b.1) :
    (alterEntries key change entries).Pairwise fun a b => a.1 < b.1 := by
  induction entries with
  | nil => simp [alterEntries]
  | cons head rest ih =>
      obtain ⟨other, value⟩ := head
      have below : ∀ entry ∈ rest, other < entry.1 := fun entry mem =>
        List.rel_of_pairwise_cons h mem
      simp only [alterEntries]
      split
      next less =>
        refine List.pairwise_cons.2 ⟨fun entry mem => ?_, h⟩
        rcases List.mem_cons.1 mem with rfl | mem
        · exact less
        · exact String.lt_trans less (below entry mem)
      next notLess =>
        split
        next same =>
          subst same
          exact List.pairwise_cons.2 ⟨below, h.of_cons⟩
        next different =>
          refine List.pairwise_cons.2 ⟨fun entry mem => ?_, ih h.of_cons⟩
          rcases mem_alterEntries mem with same | mem
          · rw [same]
            grind
          · exact below entry mem

/-- Update the entry of `key`.  `change` receives the old value. -/
def alter (map : TextMap α) (key : String) (change : Option α → α) : TextMap α :=
  ⟨alterEntries key change map.entries, ascending_alterEntries key change map.ascending⟩

/-- Set the entry of `key`, replacing an old one. -/
def insert (map : TextMap α) (key : String) (value : α) : TextMap α :=
  map.alter key fun _ => value

/-- The map of a list of entries, in which the last of several entries of a key counts. -/
def ofList (entries : List (String × α)) : TextMap α :=
  entries.foldl (fun map entry => map.insert entry.1 entry.2) empty

def get? (map : TextMap α) (key : String) : Option α :=
  (map.entries.find? fun entry => entry.1 = key).map (·.2)

/-- Apply a function to every value. -/
def mapValues {β : Type} (f : α → β) (map : TextMap α) : TextMap β where
  entries := map.entries.map fun entry => (entry.1, f entry.2)
  ascending := by
    rw [List.pairwise_map]
    exact map.ascending

end TextMap
end TileBindery
