import Mathlib.Data.List.Pairwise
import TileBindery.Proofs.Spill.RunContents
import TileBindery.Proofs.StableOrder

/-!
# The order of merged features

Features that can be read of several runs are ordered by key, then by the number of their run, then
by their position in it.  A merge hands them out in this order up to the first behind which its run
cannot be read on, and then the error.
-/

namespace TileBindery

/-- A feature that can be read of a run, with its place. -/
structure PlacedFeature where
  /-- The feature. -/
  feature : Feature
  /-- Number of its run. -/
  run : Nat
  /-- Number of features in front of it in its run. -/
  position : Nat
  /-- What reading the run on behind it fails with. -/
  fault : Option SortError
  deriving DecidableEq, Repr

namespace PlacedFeature

/-- The number that a placed feature is sorted by. -/
def key (placed : PlacedFeature) : Nat := Sorter.keyOf placed.feature

/-- A lower key first, then a lower run, then a lower position. -/
def Precedes (a b : PlacedFeature) : Prop :=
  a.key < b.key ∨
    a.key = b.key ∧ (a.run < b.run ∨ a.run = b.run ∧ a.position ≤ b.position)

instance : DecidableRel Precedes := fun _ _ => inferInstanceAs (Decidable (_ ∨ _))

/-- A lower run, or a lower position in the same run. -/
def Before (a b : PlacedFeature) : Prop :=
  a.run < b.run ∨ a.run = b.run ∧ a.position < b.position

/-- Placed features in the order in which they are handed out. -/
def inOrder (l : List PlacedFeature) : List PlacedFeature :=
  l.mergeSort fun a b => decide (Precedes a b)

/-- What is handed out of placed features in order: all of them up to the first behind which its run
cannot be read on, and the error. -/
def handOut : List PlacedFeature → List (Except SortError Feature)
  | [] => []
  | placed :: rest =>
      match placed.fault with
      | none => .ok placed.feature :: handOut rest
      | some error => [.ok placed.feature, .error error]

/-- The features of run number `run` from `position` on.  The fault follows the last of them. -/
def place (run : Nat) (fault : Option SortError) : (position : Nat) → List Feature →
    List PlacedFeature
  | _, [] => []
  | position, feature :: rest =>
      ⟨feature, run, position, if rest.isEmpty then fault else none⟩ ::
        place run fault (position + 1) rest

/-- The features of runs whose numbers start at `run`. -/
def placeAll : (run : Nat) → List RunContents → List PlacedFeature
  | _, [] => []
  | run, contents :: rest =>
      place run contents.fault 0 contents.features ++ placeAll (run + 1) rest

theorem handOut_of_sound {l : List PlacedFeature} (sound : ∀ placed ∈ l, placed.fault = none) :
    handOut l = l.map fun placed => .ok placed.feature := by
  induction l with
  | nil => rfl
  | cons placed rest ih =>
      have behind : ∀ other ∈ rest, other.fault = none :=
        fun other member => sound other (List.mem_cons_of_mem _ member)
      simp only [handOut, sound placed List.mem_cons_self, ih behind, List.map_cons]

/-- The first feature behind which its run cannot be read on is the last that is handed out. -/
theorem handOut_of_fault {front behind : List PlacedFeature} {placed : PlacedFeature}
    {error : SortError} (sound : ∀ other ∈ front, other.fault = none)
    (faulty : placed.fault = some error) :
    handOut (front ++ placed :: behind) =
      (front ++ [placed]).map (fun other => .ok other.feature) ++ [.error error] := by
  induction front with
  | nil => simp [handOut, faulty]
  | cons first rest ih =>
      have others : ∀ other ∈ rest, other.fault = none :=
        fun other member => sound other (List.mem_cons_of_mem _ member)
      simp only [List.cons_append, handOut, sound first List.mem_cons_self, ih others,
        List.map_cons]

theorem fault_of_mem_place {run position : Nat} {features : List Feature}
    {placed : PlacedFeature} (member : placed ∈ place run none position features) :
    placed.fault = none := by
  induction features generalizing position with
  | nil => exact absurd member List.not_mem_nil
  | cons feature rest ih =>
      rcases List.mem_cons.1 member with rfl | behind
      · exact ite_self none
      · exact ih behind

/-- Runs that can be read to their ends leave no fault behind a feature. -/
theorem fault_of_mem_placeAll {run : Nat} {contents : List RunContents} {placed : PlacedFeature}
    (sound : ∀ each ∈ contents, each.fault = none) (member : placed ∈ placeAll run contents) :
    placed.fault = none := by
  induction contents generalizing run with
  | nil => exact absurd member List.not_mem_nil
  | cons first rest ih =>
      rcases List.mem_append.1 member with own | other
      · rw [sound first List.mem_cons_self] at own
        exact fault_of_mem_place own
      · exact ih (fun each each_mem => sound each (List.mem_cons_of_mem _ each_mem)) other

theorem map_feature_place (run : Nat) (fault : Option SortError) (position : Nat)
    (features : List Feature) : (place run fault position features).map (·.feature) = features := by
  induction features generalizing position with
  | nil => rfl
  | cons feature rest ih => rw [place, List.map_cons, ih]

theorem map_feature_placeAll (run : Nat) (contents : List RunContents) :
    (placeAll run contents).map (·.feature) = (contents.map (·.features)).flatten := by
  induction contents generalizing run with
  | nil => rfl
  | cons first rest ih =>
      rw [placeAll, List.map_append, map_feature_place, ih, List.map_cons, List.flatten_cons]

theorem of_mem_place {fault : Option SortError} {run position : Nat} {features : List Feature}
    {placed : PlacedFeature} (member : placed ∈ place run fault position features) :
    placed.feature ∈ features ∧ placed.run = run ∧ position ≤ placed.position := by
  induction features generalizing position with
  | nil => exact absurd member List.not_mem_nil
  | cons feature rest ih =>
      rcases List.mem_cons.1 member with rfl | behind
      · exact ⟨List.mem_cons_self, rfl, Nat.le_refl _⟩
      · obtain ⟨feature_mem, same, position_le⟩ := ih behind
        exact ⟨List.mem_cons_of_mem _ feature_mem, same, Nat.le_of_succ_le position_le⟩

theorem pairwise_place {fault : Option SortError} {run position : Nat} {features : List Feature}
    (ascends : features.Pairwise fun a b => Sorter.keyOf a ≤ Sorter.keyOf b) :
    (place run fault position features).Pairwise fun a b => a.key ≤ b.key := by
  induction features generalizing position with
  | nil => exact .nil
  | cons feature rest ih =>
      refine .cons (fun placed member => ?_) (ih ascends.of_cons)
      exact List.rel_of_pairwise_cons ascends (of_mem_place member).1

theorem before_place (run : Nat) (fault : Option SortError) (position : Nat)
    (features : List Feature) : (place run fault position features).Pairwise Before := by
  induction features generalizing position with
  | nil => exact .nil
  | cons feature rest ih =>
      refine .cons (fun placed member => ?_) (ih (position + 1))
      obtain ⟨-, same, position_lt⟩ := of_mem_place member
      exact .inr ⟨same.symm, position_lt⟩

theorem le_run_of_mem_placeAll {number : Nat} {contents : List RunContents}
    {placed : PlacedFeature} (member : placed ∈ placeAll number contents) :
    number ≤ placed.run := by
  induction contents generalizing number with
  | nil => exact absurd member List.not_mem_nil
  | cons first rest ih =>
      rcases List.mem_append.1 member with own | other
      · exact Nat.le_of_eq (of_mem_place own).2.1.symm
      · exact Nat.le_of_succ_le (ih other)

theorem before_placeAll (number : Nat) (contents : List RunContents) :
    (placeAll number contents).Pairwise Before := by
  induction contents generalizing number with
  | nil => exact .nil
  | cons first rest ih =>
      refine List.pairwise_append.2 ⟨before_place _ _ _ _, ih (number + 1), ?_⟩
      intro a a_mem b b_mem
      have a_run := (of_mem_place a_mem).2.1
      have b_run := le_run_of_mem_placeAll b_mem
      exact .inl (by omega)

theorem Precedes.trans {a b c : PlacedFeature} (ab : Precedes a b) (bc : Precedes b c) :
    Precedes a c := by
  rw [Precedes] at *
  omega

theorem precedes_total (a b : PlacedFeature) : Precedes a b ∨ Precedes b a := by
  unfold Precedes
  omega

theorem inOrder_perm (l : List PlacedFeature) : (inOrder l).Perm l := List.mergeSort_perm l _

theorem pairwise_inOrder (l : List PlacedFeature) : (inOrder l).Pairwise Precedes := by
  have trans (a b c : PlacedFeature) (ab : decide (Precedes a b) = true)
      (bc : decide (Precedes b c) = true) : decide (Precedes a c) = true := by
    simp only [decide_eq_true_eq] at ab bc ⊢
    exact ab.trans bc
  have total (a b : PlacedFeature) :
      (decide (Precedes a b) || decide (Precedes b a)) = true := by
    simpa using precedes_total a b
  simpa [inOrder] using List.pairwise_mergeSort trans total l

/-- Features whose places differ are told apart by them. -/
theorem eq_of_same_place {l : List PlacedFeature} (places : l.Pairwise Before)
    {a b : PlacedFeature} (a_mem : a ∈ l) (b_mem : b ∈ l) (run : a.run = b.run)
    (position : a.position = b.position) : a = b := by
  let Told (a b : PlacedFeature) : Prop := a.run = b.run → a.position = b.position → a = b
  have symmetric : Std.Symm Told :=
    ⟨fun a b told run position => (told run.symm position.symm).symm⟩
  have told : l.Pairwise Told := by
    refine places.imp fun before run position => ?_
    rw [Before] at before
    omega
  exact told.forall_of_forall (fun a _ _ _ => rfl) a_mem b_mem run position

theorem Precedes.antisymm {l : List PlacedFeature} (places : l.Pairwise Before)
    {a b : PlacedFeature} (a_mem : a ∈ l) (b_mem : b ∈ l) (ab : Precedes a b)
    (ba : Precedes b a) : a = b := by
  unfold Precedes at ab ba
  exact eq_of_same_place places a_mem b_mem (by omega) (by omega)

/-- Features that stand run by run and in order of position are merged into their stable order. -/
theorem stableOrder_inOrder {l : List PlacedFeature} (places : l.Pairwise Before) :
    StableOrder key l (inOrder l) := by
  have sorted := pairwise_inOrder l
  constructor
  · refine sorted.imp fun before => ?_
    rw [Precedes] at before
    omega
  · intro value
    -- both sides ascend in place, and hold the same features
    have placed : (l.filter (key · = value)).Pairwise Precedes := by
      rw [List.pairwise_filter]
      refine places.imp fun before a_has b_has => ?_
      simp only [decide_eq_true_eq] at a_has b_has
      rw [Before] at before
      rw [Precedes]
      omega
    refine List.Perm.eq_of_pairwise ?_ (sorted.filter _) placed ((inOrder_perm l).filter _)
    intro a b a_mem b_mem ab ba
    have a_in : a ∈ l := (inOrder_perm l).mem_iff.1 (List.mem_of_mem_filter a_mem)
    have b_in : b ∈ l := List.mem_of_mem_filter b_mem
    exact Precedes.antisymm places a_in b_in ab ba

end PlacedFeature
end TileBindery
