/-!
When a practice is up to date.
-/

namespace Coursework

def upToDate {τ : Type} [LT τ] [DecidableLT τ]
    (solution practice script : τ) (present forced : Bool) : Bool :=
  !forced && present && decide (solution < practice) && decide (script < practice)

theorem upToDate_iff {τ : Type} [LT τ] [DecidableLT τ] {solution practice script : τ}
    {present forced : Bool} :
    upToDate solution practice script present forced = true ↔
      forced = false ∧ present = true ∧ solution < practice ∧ script < practice := by
  simp [upToDate, and_assoc]

end Coursework
