/-!
# Insertion modes

A program keeps one sequence of values. The mode only decides at which end of it a new value goes;
every other instruction reads and removes at the front. No text but the two names is read as a
mode.
-/

namespace StackQueue

/-- The end of the sequence at which new values are inserted. -/
inductive Mode where
  /-- New values go to the front. -/
  | stack
  /-- New values go to the back. -/
  | queue
  deriving DecidableEq

namespace Mode

/-- A program starts in stack mode. -/
instance : Inhabited Mode := ⟨.stack⟩

/-- Every mode has one name, in lower case. -/
def name : Mode → String
  | stack => "stack"
  | queue => "queue"

/-- The modes in the order of their definition. -/
def all : List Mode := [stack, queue]

/-- Look up the mode that has exactly the given name. -/
def ofName? (word : String) : Option Mode :=
  all.find? fun mode => mode.name = word

/-- Different modes have different names. -/
theorem name_injective {a b : Mode} (h : a.name = b.name) : a = b := by
  cases a <;> cases b <;> simp_all [name]

/-- A word names a mode exactly when it is that mode's name. -/
theorem ofName?_eq_some_iff {word : String} {mode : Mode} :
    ofName? word = some mode ↔ mode.name = word := by
  constructor
  · intro h
    simpa using List.find?_some h
  · rintro rfl
    cases mode <;> rfl

end Mode

end StackQueue
