import TileBindery.Proofs.Lists
import TileBindery.TextMap

/-!
# Lookups in maps with text keys

A map is determined by what it holds under each key.  An update changes what is held under its own
key only, so a fold of updates is followed one key at a time.
-/

namespace TileBindery
namespace TextMap

variable {α β : Type}

/-- The value of a key in a list of entries. -/
def valueIn (entries : List (String × α)) (key : String) : Option α :=
  (entries.find? fun entry => entry.1 = key).map (·.2)

@[simp]
theorem valueIn_nil (key : String) : valueIn ([] : List (String × α)) key = none := rfl

theorem valueIn_cons (other : String) (value : α) (rest : List (String × α)) (key : String) :
    valueIn ((other, value) :: rest) key = if other = key then some value else valueIn rest key := by
  by_cases same : other = key <;> simp [valueIn, same]

theorem valueIn_eq_none {entries : List (String × α)} {key : String}
    (ahead : ∀ entry ∈ entries, key < entry.1) : valueIn entries key = none := by
  have missing : entries.find? (fun entry => entry.1 = key) = none := by
    refine List.find?_eq_none.2 fun entry member same => ?_
    have := ahead entry member
    simp_all
  rw [valueIn, missing, Option.map_none]

theorem mem_iff_valueIn {entries : List (String × α)}
    (ascending : entries.Pairwise fun a b => a.1 < b.1) {key : String} {value : α} :
    (key, value) ∈ entries ↔ valueIn entries key = some value := by
  induction entries with
  | nil => simp
  | cons head rest ih =>
      obtain ⟨other, held⟩ := head
      have ahead : ∀ entry ∈ rest, other < entry.1 := (List.pairwise_cons.1 ascending).1
      rw [List.mem_cons, valueIn_cons, ih ascending.of_cons]
      split
      next same =>
        subst same
        simp [valueIn_eq_none ahead, eq_comm]
      next different =>
        have elsewhere : (key, value) ≠ (other, held) := fun same =>
          different (congrArg Prod.fst same).symm
        simp [elsewhere]

theorem valueIn_alterEntries {entries : List (String × α)}
    (ascending : entries.Pairwise fun a b => a.1 < b.1) (key : String) (change : Option α → α)
    (other : String) :
    valueIn (alterEntries key change entries) other =
      if key = other then some (change (valueIn entries key)) else valueIn entries other := by
  induction entries with
  | nil => simp [alterEntries, valueIn_cons]
  | cons head rest ih =>
      obtain ⟨first, held⟩ := head
      have ahead : ∀ entry ∈ rest, first < entry.1 := (List.pairwise_cons.1 ascending).1
      simp only [alterEntries]
      split
      next less =>
        -- All entries lie behind the key, so it is new.
        have missing : valueIn ((first, held) :: rest) key = none := by
          refine valueIn_eq_none fun entry member => ?_
          rcases List.mem_cons.1 member with rfl | behind
          · exact less
          · exact String.lt_trans less (ahead entry behind)
        rw [valueIn_cons, missing]
      next notLess =>
        split
        next same =>
          subst same
          simp only [valueIn_cons, if_true]
          split <;> rfl
        next different =>
          simp only [valueIn_cons, ih ascending.of_cons, if_neg (Ne.symm different)]
          split
          next atFirst =>
            subst atFirst
            rw [if_neg different]
          next => rfl

theorem mem_entries_iff {map : TextMap α} {key : String} {value : α} :
    (key, value) ∈ map.entries ↔ map.get? key = some value :=
  mem_iff_valueIn map.ascending

/-- An update acts on its own key and on no other. -/
theorem get?_alter (map : TextMap α) (key : String) (change : Option α → α) (other : String) :
    (map.alter key change).get? other =
      if key = other then some (change (map.get? key)) else map.get? other :=
  valueIn_alterEntries map.ascending key change other

@[simp]
theorem get?_empty (key : String) : (empty : TextMap α).get? key = none := rfl

/-- Maps that hold the same under every key are equal. -/
theorem ext_get? {a b : TextMap α} (same : ∀ key, a.get? key = b.get? key) : a = b := by
  refine TextMap.ext (eq_of_ordered (fun _ _ => String.lt_asymm) a.ascending b.ascending ?_)
  rintro ⟨key, value⟩
  rw [mem_entries_iff, mem_entries_iff, same]

/-- Entries that are folded into a map one by one, each key at most once, act on their own keys
each. -/
theorem get?_foldl_alter {entries : List (String × β)}
    (ascending : entries.Pairwise fun a b => a.1 < b.1) (change : β → Option α → α)
    (map : TextMap α) (key : String) :
    (entries.foldl (fun map entry => map.alter entry.1 (change entry.2)) map).get? key =
      (valueIn entries key).elim (map.get? key) fun value => some (change value (map.get? key)) := by
  induction entries generalizing map with
  | nil => rfl
  | cons entry rest ih =>
      obtain ⟨first, value⟩ := entry
      rw [List.foldl_cons, ih ascending.of_cons, valueIn_cons, get?_alter]
      by_cases same : first = key
      · subst same
        have later := valueIn_eq_none (List.pairwise_cons.1 ascending).1
        simp [later]
      · simp [same]

/-- The entries of a map make up the map. -/
theorem ofList_entries (map : TextMap α) : ofList map.entries = map := by
  refine ext_get? fun key => ?_
  have folded := get?_foldl_alter map.ascending (fun value _ => value) empty key
  rw [ofList]
  simp only [insert]
  rw [folded, get?_empty]
  change (map.get? key).elim none some = map.get? key
  cases map.get? key <;> rfl

end TextMap
end TileBindery
