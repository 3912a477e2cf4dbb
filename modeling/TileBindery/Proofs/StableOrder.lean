import TileBindery.Proofs.Lists
import TileBindery.Spill.Sorter

/-!
# Stable orders

A list is the stable order of another by a key when it ascends by the key and, for every value of
the key, holds the same elements with that value in the same order.  There is only one such list,
so however features are cut up, sorted and merged, these two facts settle the result.
-/

namespace TileBindery

variable {α β : Type} {key : α → Nat}

/-- `out` is `input` in ascending order of a key, and elements of equal keys keep their order. -/
structure StableOrder (key : α → Nat) (input out : List α) : Prop where
  /-- Keys never descend. -/
  ascending : out.Pairwise fun a b => key a ≤ key b
  /-- Elements with one value of the key stand in the order in which they came. -/
  ties : ∀ value, out.filter (key · = value) = input.filter (key · = value)

namespace StableOrder

theorem mem_iff {input out : List α} (order : StableOrder key input out) {a : α} :
    a ∈ out ↔ a ∈ input := by
  have same : a ∈ out.filter (key · = key a) ↔ a ∈ input.filter (key · = key a) := by
    rw [order.ties]
  simpa using same

/-- A key that no element of a list has leaves nothing of it. -/
theorem filter_eq_nil {l : List α} {value : Nat} (h : ∀ a ∈ l, key a ≠ value) :
    l.filter (key · = value) = [] := by
  rw [List.filter_eq_nil_iff]
  intro a member
  simpa using h a member

/-- Both lists begin with an element of the least key, and with the same one. -/
theorem head_eq {input : List α} {a b : α} {out other : List α}
    (left : StableOrder key input (a :: out)) (right : StableOrder key input (b :: other)) :
    a = b := by
  have a_le : key a ≤ key b := by
    have member : b ∈ a :: out := left.mem_iff.2 (right.mem_iff.1 List.mem_cons_self)
    rcases List.mem_cons.1 member with rfl | behind
    · exact Nat.le_refl _
    · exact List.rel_of_pairwise_cons left.ascending behind
  have b_le : key b ≤ key a := by
    have member : a ∈ b :: other := right.mem_iff.2 (left.mem_iff.1 List.mem_cons_self)
    rcases List.mem_cons.1 member with rfl | behind
    · exact Nat.le_refl _
    · exact List.rel_of_pairwise_cons right.ascending behind
  have equal : key b = key a := Nat.le_antisymm b_le a_le
  have tied := (left.ties (key a)).trans (right.ties (key a)).symm
  rw [List.filter_cons_of_pos (by simp), List.filter_cons_of_pos (by simp [equal])] at tied
  exact (List.cons.inj tied).1

/-- The lists behind a common first element are stable orders of one list again. -/
theorem tail_ties {a : α} {out other : List α}
    (ties : ∀ value, (a :: out).filter (key · = value) = (a :: other).filter (key · = value))
    (value : Nat) : out.filter (key · = value) = other.filter (key · = value) := by
  have tied := ties value
  by_cases has : key a = value
  · rw [List.filter_cons_of_pos (by simpa using has),
      List.filter_cons_of_pos (by simpa using has)] at tied
    exact (List.cons.inj tied).2
  · rw [List.filter_cons_of_neg (by simpa using has),
      List.filter_cons_of_neg (by simpa using has)] at tied
    exact tied

theorem eq_nil_of_nil {out : List α} (order : StableOrder key [] out) : out = [] := by
  rw [List.eq_nil_iff_forall_not_mem]
  intro a member
  exact List.not_mem_nil (order.mem_iff.1 member)

/-- A list has one stable order. -/
theorem unique {input out other : List α} (left : StableOrder key input out)
    (right : StableOrder key input other) : out = other := by
  induction out generalizing input other with
  | nil =>
      cases other with
      | nil => rfl
      | cons b other =>
          have member := left.mem_iff.2 (right.mem_iff.1 (List.mem_cons_self (a := b)))
          exact absurd member List.not_mem_nil
  | cons a out ih =>
      cases other with
      | nil =>
          have member := right.mem_iff.2 (left.mem_iff.1 (List.mem_cons_self (a := a)))
          exact absurd member List.not_mem_nil
      | cons b other =>
          obtain rfl := head_eq left right
          have ties := tail_ties fun value => (left.ties value).trans (right.ties value).symm
          have behind : StableOrder key other out := ⟨left.ascending.of_cons, ties⟩
          rw [ih behind ⟨right.ascending.of_cons, fun _ => rfl⟩]

/-- Only the elements of each key and their order matter. -/
theorem congr {input other out : List α} (order : StableOrder key input out)
    (same : ∀ value, other.filter (key · = value) = input.filter (key · = value)) :
    StableOrder key other out :=
  ⟨order.ascending, fun value => (order.ties value).trans (same value).symm⟩

/-- Parts of a list may be put in order before the whole is. -/
theorem of_parts {parts slices : List (List α)} {out : List α}
    (sorted : List.Forall₂ (StableOrder key) slices parts)
    (order : StableOrder key parts.flatten out) : StableOrder key slices.flatten out := by
  apply order.congr
  intro value
  clear order
  induction sorted with
  | nil => rfl
  | cons part _ ih =>
      rw [List.flatten_cons, List.flatten_cons, List.filter_append, List.filter_append, ih,
        part.ties]

/-- The stable order has the same elements, each as often. -/
theorem perm {input out : List α} (order : StableOrder key input out) : out.Perm input := by
  classical
  rw [List.perm_iff_count]
  intro a
  have own (l : List α) : (l.filter (key · = key a)).count a = l.count a :=
    List.count_filter (by simp)
  rw [← own out, order.ties, own]

/-- Elements may be put in order with what is attached to them. -/
theorem map {β : Type} (f : β → α) {input out : List β}
    (order : StableOrder (fun b => key (f b)) input out) :
    StableOrder key (input.map f) (out.map f) := by
  refine ⟨List.pairwise_map.2 order.ascending, fun value => ?_⟩
  rw [List.filter_map, List.filter_map]
  exact congrArg (List.map f) (order.ties value)

/-- The first of the elements with the least key comes first. -/
theorem cons {before after out : List α} {a : α}
    (above : ∀ b ∈ before, key a < key b) (least : ∀ b ∈ after, key a ≤ key b)
    (order : StableOrder key (before ++ after) out) :
    StableOrder key (before ++ a :: after) (a :: out) := by
  constructor
  · rw [List.pairwise_cons]
    refine ⟨fun b member => ?_, order.ascending⟩
    rcases List.mem_append.1 (order.mem_iff.1 member) with front | back
    · exact Nat.le_of_lt (above b front)
    · exact least b back
  · intro value
    have ties := order.ties value
    rw [List.filter_append] at ties ⊢
    by_cases has : key a = value
    · have none : before.filter (key · = value) = [] :=
        filter_eq_nil fun b member equal => by
          have := above b member
          omega
      rw [none, List.nil_append] at ties ⊢
      rw [List.filter_cons_of_pos (by simpa using has),
        List.filter_cons_of_pos (by simpa using has), ties]
    · rw [List.filter_cons_of_neg (by simpa using has),
        List.filter_cons_of_neg (by simpa using has), ties]

end StableOrder

/-- Sorting by merging keeps elements of equal keys in order. -/
theorem stableOrder_mergeSort (key : α → Nat) (l : List α) :
    StableOrder key l (l.mergeSort fun a b => decide (key a ≤ key b)) := by
  have trans (a b c : α) (ab : decide (key a ≤ key b) = true)
      (bc : decide (key b ≤ key c) = true) : decide (key a ≤ key c) = true := by
    simp only [decide_eq_true_eq] at ab bc ⊢
    exact Nat.le_trans ab bc
  have total (a b : α) : (decide (key a ≤ key b) || decide (key b ≤ key a)) = true := by
    simpa using Nat.le_total (key a) (key b)
  constructor
  · simpa using List.pairwise_mergeSort trans total l
  · intro value
    -- the elements of one key form an ascending sublist, which the sort keeps
    have tied : (l.filter (key · = value)).Pairwise fun a b => decide (key a ≤ key b) = true := by
      rw [List.pairwise_filter]
      apply List.pairwise_of_forall
      intro a b a_has b_has
      simp_all
    have kept := (List.sublist_mergeSort trans total tied List.filter_sublist).filter
      (key · = value)
    rw [List.filter_filter] at kept
    simp only [Bool.and_self] at kept
    refine (kept.eq_of_length ?_).symm
    exact ((List.mergeSort_perm l _).filter _).length_eq.symm

namespace Sorter

/-- The number that a feature is sorted by. -/
def keyOf (feature : Feature) : Nat := feature.key.toNat

theorem inKeyOrder_eq_mergeSort (features : List Feature) :
    inKeyOrder features = features.mergeSort fun a b => decide (keyOf a ≤ keyOf b) := by
  rw [inKeyOrder]
  congr 1

theorem stableOrder_inKeyOrder (features : List Feature) :
    StableOrder keyOf features (inKeyOrder features) := by
  rw [inKeyOrder_eq_mergeSort]
  exact stableOrder_mergeSort keyOf features

/-- Sorting leaves an ascending list as it is. -/
theorem inKeyOrder_of_ascending {features : List Feature}
    (ascending : features.Pairwise fun a b => keyOf a ≤ keyOf b) :
    inKeyOrder features = features := by
  rw [inKeyOrder_eq_mergeSort]
  exact List.mergeSort_of_pairwise (ascending.imp decide_eq_true)

theorem inKeyOrder_swap {first second : Feature} (below : keyOf second < keyOf first) :
    inKeyOrder [first, second] = [second, first] := by
  have late : ¬ keyOf first ≤ keyOf second := Nat.not_le.2 below
  simp [inKeyOrder_eq_mergeSort, List.mergeSort, List.MergeSort.Internal.splitInTwo, late]

end Sorter
end TileBindery
