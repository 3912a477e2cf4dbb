import Mathlib.Data.List.Forall2

/-!
# Lists that correspond

Facts about two lists whose entries correspond one by one, and about lists with the same entries.
-/

namespace TileBindery

theorem exists_of_forall₂_append {α β : Type} {R : α → β → Prop} {front back : List α}
    {l : List β} (related : List.Forall₂ R (front ++ back) l) :
    ∃ first second, l = first ++ second ∧ List.Forall₂ R front first ∧
      List.Forall₂ R back second := by
  induction front generalizing l with
  | nil => exact ⟨[], l, rfl, .nil, related⟩
  | cons a front ih =>
      cases related with
      | cons head tail =>
          obtain ⟨first, second, rfl, related_front, related_back⟩ := ih tail
          exact ⟨_ :: first, second, rfl, .cons head related_front, related_back⟩

theorem exists_right_of_forall₂ {α β : Type} {R : α → β → Prop} {l : List α} {m : List β}
    (related : List.Forall₂ R l m) {a : α} (member : a ∈ l) : ∃ b ∈ m, R a b := by
  induction related with
  | nil => exact absurd member List.not_mem_nil
  | cons head _ ih =>
      rcases List.mem_cons.1 member with rfl | behind
      · exact ⟨_, List.mem_cons_self, head⟩
      · obtain ⟨b, b_mem, found⟩ := ih behind
        exact ⟨b, List.mem_cons_of_mem _ b_mem, found⟩

theorem exists_left_of_forall₂ {α β : Type} {R : α → β → Prop} {l : List α} {m : List β}
    (related : List.Forall₂ R l m) {b : β} (member : b ∈ m) : ∃ a ∈ l, R a b :=
  exists_right_of_forall₂ related.flip member

/-- A list has a counterpart if each of its elements has one. -/
theorem exists_forall₂_iff {α β : Type} {R : α → β → Prop} {l : List α} :
    (∃ r, List.Forall₂ R l r) ↔ ∀ a ∈ l, ∃ b, R a b := by
  constructor
  · rintro ⟨r, all⟩ a member
    obtain ⟨b, -, related⟩ := exists_right_of_forall₂ all member
    exact ⟨b, related⟩
  · intro each
    induction l with
    | nil => exact ⟨[], .nil⟩
    | cons a rest ih =>
        obtain ⟨b, first⟩ := each a List.mem_cons_self
        obtain ⟨r, others⟩ := ih fun other member => each other (List.mem_cons_of_mem _ member)
        exact ⟨b :: r, .cons first others⟩

/-- A strictly ordered list is determined by its elements. -/
theorem eq_of_ordered {α : Type} {r : α → α → Prop} (asymm : ∀ a b, r a b → ¬r b a)
    {l m : List α} (l_ordered : l.Pairwise r) (m_ordered : m.Pairwise r)
    (same : ∀ a, a ∈ l ↔ a ∈ m) : l = m := by
  have nodup {k : List α} (ordered : k.Pairwise r) : k.Nodup := by
    refine ordered.imp fun {a b} before equal => ?_
    subst equal
    exact asymm a a before before
  have perm : l.Perm m :=
    (List.perm_ext_iff_of_nodup (nodup l_ordered) (nodup m_ordered)).2 same
  exact perm.eq_of_pairwise (fun a b _ _ before after => absurd after (asymm a b before))
    l_ordered m_ordered

end TileBindery
