import TileBindery.NodeTable

/-!
# Entries of a node table

The entries of a table lie in its file one behind the other, each at a place that its number tells.
The main statement says that a search among entries with ascending identifiers finds the value of an
identifier if it has one.
-/

namespace TileBindery
namespace NodeTable

/-! ### Octets -/

/-- What a file of entries holds. -/
def octetsOf (entries : List (UInt64 × UInt64)) : Bytes :=
  entries.flatMap fun entry => word entry.1 ++ word entry.2

variable {entries : List (UInt64 × UInt64)}

@[simp]
theorem length_word (value : UInt64) : (word value).length = 8 := Bytes.length_littleEndian 8 _

@[simp]
theorem ofWord_word (value : UInt64) : ofWord (word value) = value := by
  rw [ofWord, word, Bytes.fromLittleEndian_littleEndian]
  have small : value.toNat < 256 ^ 8 := value.toNat_lt
  rw [Nat.mod_eq_of_lt small, UInt64.ofNat_toNat]

theorem octetsOf_cons (entry : UInt64 × UInt64) (entries : List (UInt64 × UInt64)) :
    octetsOf (entry :: entries) = word entry.1 ++ word entry.2 ++ octetsOf entries := rfl

theorem octetsOf_concat (entries : List (UInt64 × UInt64)) (id value : UInt64) :
    octetsOf (entries ++ [(id, value)]) = octetsOf entries ++ [word id, word value].flatten := by
  simp [octetsOf]

theorem length_octetsOf (entries : List (UInt64 × UInt64)) :
    (octetsOf entries).length = entries.length * entrySize := by
  induction entries with
  | nil => rfl
  | cons entry rest ih =>
      rw [octetsOf_cons, List.length_append, List.length_append, length_word, length_word, ih,
        List.length_cons, Nat.succ_mul, Nat.add_comm]
      rfl

theorem entryAt_octetsOf {number : Nat} (below : number < entries.length) :
    entryAt (octetsOf entries) number = entries[number] := by
  induction entries generalizing number with
  | nil => simp at below
  | cons entry rest ih =>
      rw [octetsOf_cons]
      cases number with
      | zero => simp [entryAt]
      | succ number =>
          have behind : (word entry.1 ++ word entry.2 ++ octetsOf rest).drop
              ((number + 1) * entrySize) = (octetsOf rest).drop (number * entrySize) := by
            rw [Nat.succ_mul, Nat.add_comm, ← List.drop_drop, List.drop_left' (by simp [entrySize])]
          rw [List.length_cons, Nat.add_lt_add_iff_right] at below
          rw [entryAt, behind]
          exact ih below

/-! ### Searching -/

/-- Entries between two places have ascending identifiers. -/
def AscendsBetween (entry : Nat → UInt64 × UInt64) (low high : Nat) : Prop :=
  ∀ i j, low ≤ i → i < j → j < high → (entry i).1 < (entry j).1

variable {entry : Nat → UInt64 × UInt64} {low high : Nat}

theorem AscendsBetween.lt_of_lt (ascends : AscendsBetween entry low high) {i j : Nat}
    (low_le : low ≤ j) (below : i < high) (less : (entry i).1 < (entry j).1) : i < j := by
  rcases Nat.lt_trichotomy i j with front | rfl | behind
  · exact front
  · exact absurd less (UInt64.lt_irrefl _)
  · exact absurd less (UInt64.lt_asymm (ascends j i low_le behind below))

theorem AscendsBetween.eq_of_eq (ascends : AscendsBetween entry low high) {i j : Nat}
    (low_le : low ≤ i) (low_le' : low ≤ j) (below : i < high) (below' : j < high)
    (same : (entry i).1 = (entry j).1) : i = j := by
  rcases Nat.lt_trichotomy i j with front | equal | behind
  · exact absurd (ascends i j low_le front below') (same ▸ UInt64.lt_irrefl _)
  · exact equal
  · exact absurd (ascends j i low_le' behind below) (same ▸ UInt64.lt_irrefl _)

/-- Among entries with ascending identifiers, the value of an identifier is found if it has one. -/
theorem search_eq_some_iff {id value : UInt64} (ascends : AscendsBetween entry low high) :
    search entry id low high = some value ↔ ∃ i, low ≤ i ∧ i < high ∧ entry i = (id, value) := by
  -- an entry with the identifier lies in the half that is searched on, as it cannot be in the other
  fun_induction search entry id low high with
  | case1 low high some_room middle found at_middle =>
      constructor
      · rintro ⟨⟩
        exact ⟨middle, by omega, by omega, at_middle⟩
      · rintro ⟨i, low_le, below, at_i⟩
        obtain rfl : i = middle :=
          ascends.eq_of_eq low_le (by omega) below (by omega) (by rw [at_i, at_middle])
        exact congrArg some (Prod.mk.inj (at_middle.symm.trans at_i)).2
  | case2 low high some_room middle found _ at_middle other smaller ih =>
      rw [ih fun i j low_le => ascends i j (by omega)]
      constructor
      · rintro ⟨i, low_le, below, at_i⟩
        exact ⟨i, by omega, below, at_i⟩
      · rintro ⟨i, low_le, below, at_i⟩
        have behind : middle < i :=
          ascends.lt_of_lt low_le (by omega) (by rw [at_i, at_middle]; exact smaller)
        exact ⟨i, behind, below, at_i⟩
  | case3 low high some_room middle found _ at_middle other not_smaller ih =>
      rw [ih fun i j low_le before below => ascends i j low_le before (by omega)]
      constructor
      · rintro ⟨i, low_le, below, at_i⟩
        exact ⟨i, low_le, by omega, at_i⟩
      · rintro ⟨i, low_le, below, at_i⟩
        have larger := UInt64.lt_of_le_of_ne (UInt64.not_lt.1 not_smaller) (Ne.symm other)
        have front : i < middle :=
          ascends.lt_of_lt (by omega) below (by rw [at_i, at_middle]; exact larger)
        exact ⟨i, low_le, front, at_i⟩
  | case4 low high none =>
      constructor
      · rintro ⟨⟩
      · rintro ⟨i, low_le, below, -⟩
        omega

/-- A table finds the values of its entries, and no others. -/
theorem search_octetsOf (ascending : entries.Pairwise fun a b => a.1 < b.1) {id value : UInt64} :
    search (entryAt (octetsOf entries)) id 0 entries.length = some value ↔
      (id, value) ∈ entries := by
  have ascends : AscendsBetween (entryAt (octetsOf entries)) 0 entries.length := by
    intro i j _ before below
    rw [entryAt_octetsOf (Nat.lt_trans before below), entryAt_octetsOf below]
    exact List.pairwise_iff_getElem.1 ascending i j _ below before
  rw [search_eq_some_iff ascends, List.mem_iff_getElem]
  constructor
  · rintro ⟨i, -, below, found⟩
    exact ⟨i, below, (entryAt_octetsOf below).symm.trans found⟩
  · rintro ⟨i, below, found⟩
    exact ⟨i, Nat.zero_le i, below, (entryAt_octetsOf below).trans found⟩

end NodeTable
end TileBindery
