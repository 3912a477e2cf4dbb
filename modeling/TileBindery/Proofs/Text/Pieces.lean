import TileBindery.Proofs.Text.Utf8RoundTrip

/-!
# Pieces between separators

A sequence is cut at the leftmost place where a separator stands, then behind it, and so on.  The
pieces are told by the sequence, and the separator stands in none of them.
-/

namespace TileBindery
namespace Separator

variable {α : Type} {separator : List α}

/-- A separator stands behind `front`, and nowhere further left. -/
structure FirstBehind (separator items front : List α) : Prop where
  stands : front ++ separator <+: items
  leftmost : ∀ other, other ++ separator <+: items → front.length ≤ other.length

/-- Items fall into pieces in front of separators, and a rest in which no separator stands. -/
inductive Pieces (separator : List α) : List α → List (List α) → List α → Prop where
  | rest {items : List α} (none : ¬separator <:+: items) : Pieces separator items [] items
  | piece {front behind rest : List α} {pieces : List (List α)}
      (first : FirstBehind separator (front ++ (separator ++ behind)) front)
      (others : Pieces separator behind pieces rest) :
      Pieces separator (front ++ (separator ++ behind)) (front :: pieces) rest

theorem FirstBehind.unique {items front other : List α}
    (first : FirstBehind separator items front) (second : FirstBehind separator items other) :
    front = other := by
  have length := Nat.le_antisymm (first.leftmost _ second.stands) (second.leftmost _ first.stands)
  have shorter := (List.prefix_append front separator).trans first.stands
  have longer := (List.prefix_append other separator).trans second.stands
  exact (List.prefix_of_prefix_length_le shorter longer (Nat.le_of_eq length)).eq_of_length length

/-- No separator stands inside what is in front of the first one. -/
theorem FirstBehind.not_infix (nonempty : separator ≠ []) {items front : List α}
    (first : FirstBehind separator items front) : ¬separator <:+: front := by
  rintro ⟨before, behind, rfl⟩
  have earlier := first.leftmost before
    (((List.prefix_append _ behind).trans (List.prefix_append _ separator)).trans first.stands)
  have some_item := List.length_pos_iff.2 nonempty
  simp only [List.length_append] at earlier
  omega

section Cutting

variable [BEq α] [LawfulBEq α]

theorem cut?_eq_none_iff {items : List α} :
    cut? separator items = none ↔ ¬separator <:+: items := by
  induction items with
  | nil => simp [cut?]
  | cons item rest ih =>
      rw [cut?, List.infix_cons_iff, ← List.isPrefixOf_iff_prefix]
      split
      next here => simp [here]
      next absent => simp [absent, ih]

theorem firstBehind_of_cut? {items front behind : List α}
    (found : cut? separator items = some (front, behind)) : FirstBehind separator items front where
  stands := by
    rw [eq_append_of_cut? found]
    exact List.prefix_append _ _
  leftmost := by
    induction items generalizing front with
    | nil =>
        rw [cut?] at found
        split at found
        · cases found
          exact fun _ _ => Nat.zero_le _
        · cases found
    | cons item rest ih =>
        rw [cut?] at found
        split at found
        · cases found
          exact fun _ _ => Nat.zero_le _
        next absent =>
          obtain ⟨⟨others, _⟩, found, parts⟩ := Option.map_eq_some_iff.1 found
          cases parts
          intro other stands
          cases other with
          | nil => exact absurd (List.isPrefixOf_iff_prefix.2 stands) absent
          | cons _ other =>
              exact Nat.succ_le_succ (ih found other (List.cons_prefix_cons.1 stands).2)

/-- Cutting finds the first separator. -/
theorem cut?_eq_some_iff {items front behind : List α} :
    cut? separator items = some (front, behind) ↔
      items = front ++ (separator ++ behind) ∧ FirstBehind separator items front := by
  constructor
  · intro found
    refine ⟨?_, firstBehind_of_cut? found⟩
    rw [eq_append_of_cut? found, List.append_assoc]
  · rintro ⟨shape, first⟩
    cases found : cut? separator items with
    | none =>
        refine absurd ?_ (cut?_eq_none_iff.1 found)
        exact ⟨front, behind, by rw [shape, List.append_assoc]⟩
    | some pair =>
        obtain rfl := (firstBehind_of_cut? found).unique first
        have parts := eq_append_of_cut? found
        rw [shape, ← List.append_assoc] at parts
        rw [List.append_cancel_left parts]

/-! ### All pieces -/

theorem Pieces.of_cut? {items front behind rest : List α} {pieces : List (List α)}
    (found : cut? separator items = some (front, behind))
    (others : Pieces separator behind pieces rest) :
    Pieces separator items (front :: pieces) rest := by
  obtain ⟨rfl, first⟩ := cut?_eq_some_iff.1 found
  exact .piece first others

theorem exists_pieces (nonempty : separator ≠ []) (items : List α) :
    ∃ pieces rest, Pieces separator items pieces rest := by
  induction count : items.length using Nat.strongRecOn generalizing items with
  | ind _ ih =>
      cases found : cut? separator items with
      | none => exact ⟨[], items, .rest (cut?_eq_none_iff.1 found)⟩
      | some pair =>
          obtain ⟨front, behind⟩ := pair
          have shorter : behind.length < items.length := by
            have some_item := List.length_pos_iff.2 nonempty
            rw [eq_append_of_cut? found, List.length_append, List.length_append]
            omega
          obtain ⟨pieces, rest, others⟩ := ih _ (count ▸ shorter) behind rfl
          exact ⟨front :: pieces, rest, .of_cut? found others⟩

end Cutting

/-- Items fall into pieces in one way. -/
theorem Pieces.unique {items rest left : List α} {pieces others : List (List α)}
    (first : Pieces separator items pieces rest) (second : Pieces separator items others left) :
    others = pieces ∧ left = rest := by
  induction first generalizing others left with
  | rest none =>
      cases second with
      | rest => exact ⟨rfl, rfl⟩
      | @piece front behind => exact absurd ⟨front, behind, List.append_assoc _ _ _⟩ none
  | @piece front behind rest pieces first _ ih =>
      generalize shape : front ++ (separator ++ behind) = items at *
      cases second with
      | rest none => exact absurd ⟨front, behind, by rw [← shape, List.append_assoc]⟩ none
      | piece second others =>
          obtain rfl := first.unique second
          obtain rfl := List.append_cancel_left (List.append_cancel_left shape)
          obtain ⟨rfl, rfl⟩ := ih others
          exact ⟨rfl, rfl⟩

/-- The separator stands in none of the pieces and not in the rest. -/
theorem Pieces.not_infix (nonempty : separator ≠ []) {items rest : List α}
    {pieces : List (List α)} (cut : Pieces separator items pieces rest) :
    ∀ piece ∈ pieces ++ [rest], ¬separator <:+: piece := by
  induction cut with
  | rest none => simpa using none
  | piece first _ ih => exact List.forall_mem_cons.2 ⟨first.not_infix nonempty, ih⟩

end Separator
end TileBindery
