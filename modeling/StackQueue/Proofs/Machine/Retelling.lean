import Mathlib.Data.List.Forall2
import StackQueue.Machine.Step

/-!
# Outcomes told in other words

Two programs may do the same and report it differently: they blame other lines, or leave some
events out. It is enough to compare them statement by statement.
-/

namespace StackQueue

namespace Outcome

/-- The same outcome with its failure reworded, and with its events reworded or left out. -/
def retell (blame : Failure → Failure) (tell : Event → Option Event) (outcome : Outcome) :
    Outcome :=
  ⟨outcome.machine, outcome.failure?.map blame, outcome.events.filterMap tell⟩

variable (blame : Failure → Failure) (tell : Event → Option Event)

/-- What follows a success follows it in whatever words. -/
theorem retell_andThen (outcome : Outcome) (next : Machine → Outcome) :
    (outcome.andThen next).retell blame tell =
      (outcome.retell blame tell).andThen fun m => (next m).retell blame tell := by
  obtain ⟨m, failure?, events⟩ := outcome
  cases failure? with
  | some failure => rfl
  | none =>
      simp only [andThen, retell, Option.map_none]
      rw [Array.filterMap_append Array.size_append]

end Outcome

namespace Machine

/-- The second statement does on every machine what the first one does, in other words. -/
def Retells (blame : Failure → Failure) (tell : Event → Option Event)
    (statement other : Nat × Statement) : Prop :=
  ∀ m : Machine, m.step other.1 other.2 = (m.step statement.1 statement.2).retell blame tell

/-- A program whose statements each do what those of another program do does so as a whole. -/
theorem runStatements_of_retells {blame : Failure → Failure} {tell : Event → Option Event}
    {statements others : List (Nat × Statement)}
    (h : List.Forall₂ (Retells blame tell) statements others) (m : Machine) :
    m.runStatements others = (m.runStatements statements).retell blame tell := by
  induction h generalizing m with
  | nil => rfl
  | @cons statement other statements others hstep _ ih =>
      calc m.runStatements (other :: others) =
          (m.step other.1 other.2).andThen fun m => m.runStatements others :=
            runStatements_cons m other.1 other.2 others
        _ = ((m.step statement.1 statement.2).retell blame tell).andThen fun m =>
              (m.runStatements statements).retell blame tell := by
            rw [hstep m, funext ih]
        _ = ((m.step statement.1 statement.2).andThen fun m =>
              m.runStatements statements).retell blame tell :=
            (Outcome.retell_andThen blame tell _ _).symm
        _ = (m.runStatements (statement :: statements)).retell blame tell := by
            rw [← runStatements_cons]

end Machine

end StackQueue
