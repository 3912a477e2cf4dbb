/-!
# Histories

What happens to a state, one event after the other.
-/

namespace TileBindery

variable {State Event : Type} {Step : State → Event → State → Prop}

/-- Events that lead from one state to another, each by one step. -/
inductive History (Step : State → Event → State → Prop) : State → List Event → State → Prop where
  | nil (state : State) : History Step state [] state
  | cons {state next last : State} {event : Event} {events : List Event}
      (step : Step state event next) (rest : History Step next events last) :
      History Step state (event :: events) last

namespace History

variable {state last : State} {front back : List Event}

theorem split (history : History Step state (front ++ back) last) :
    ∃ middle, History Step state front middle ∧ History Step middle back last := by
  induction front generalizing state with
  | nil => exact ⟨state, .nil state, history⟩
  | cons event front ih =>
      cases history with
      | cons step rest =>
          obtain ⟨middle, before, behind⟩ := ih rest
          exact ⟨middle, .cons step before, behind⟩

/-- What every step makes hold of the events up to it and of the state behind it. -/
theorem accumulates (holds : List Event → State → Prop) (history : History Step state back last)
    (step : ∀ ⦃front state event next⦄, Step state event next → holds front state →
      holds (front ++ [event]) next)
    (start : holds front state) : holds (front ++ back) last := by
  induction history generalizing front with
  | nil => rwa [List.append_nil]
  | cons first _ ih =>
      have whole := ih (step first start)
      rwa [List.append_assoc] at whole

end History
end TileBindery
