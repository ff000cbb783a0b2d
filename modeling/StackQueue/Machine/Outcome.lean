import StackQueue.Event
import StackQueue.Failure
import StackQueue.Sequence.Basic
import StackQueue.Sink

/-!
# Machines and the outcomes of their steps

A machine is all that a program works on: the mode in force, the sequence of values and the output.
A step of it leads to an outcome, which holds the machine afterwards, the failure if there is one,
and the events in order. `Outcome.andThen` chains outcomes up to the first failure. Since it is
associative, the lines of a program can be grouped at will.
-/

namespace StackQueue

/-- The state in which a program runs. -/
structure Machine where
  /-- The end at which new values are inserted. -/
  mode : Mode
  /-- The values. -/
  sequence : Sequence
  /-- The output. -/
  sink : Sink
  deriving DecidableEq

/-- What a step of a machine leads to. -/
structure Outcome where
  /-- The machine after the step. -/
  machine : Machine
  /-- Why the step failed, if it did. -/
  failure? : Option Failure
  /-- What the step reports, in order. -/
  events : Array Event
  deriving DecidableEq

namespace Machine

/-- A machine in stack mode, without values, in front of the given output. -/
def start (sink : Sink) : Machine :=
  ⟨default, .empty, sink⟩

/-- The outcome of a step that ends with this machine and has nothing to report. -/
def done (m : Machine) : Outcome :=
  ⟨m, none, #[]⟩

/-- The outcome of a step that fails and leaves this machine. -/
def failed (m : Machine) (failure : Failure) : Outcome :=
  ⟨m, some failure, #[]⟩

end Machine

namespace Outcome

/-- Report an event before all others. -/
def after (event : Event) (outcome : Outcome) : Outcome :=
  { outcome with events := #[event] ++ outcome.events }

/-- Continue from the machine of a step that did not fail. -/
def andThen (outcome : Outcome) (next : Machine → Outcome) : Outcome :=
  match outcome with
  | ⟨m, some failure, events⟩ => ⟨m, some failure, events⟩
  | ⟨m, none, events⟩ =>
      let ⟨m, failure?, others⟩ := next m
      ⟨m, failure?, events ++ others⟩

/-- Nothing follows a failure. -/
theorem andThen_of_failure {outcome : Outcome} {failure : Failure} {next : Machine → Outcome}
    (h : outcome.failure? = some failure) : outcome.andThen next = outcome := by
  obtain ⟨m, failure?, events⟩ := outcome
  cases h
  rfl

/-- Doing nothing first adds nothing. -/
theorem done_andThen (m : Machine) (next : Machine → Outcome) :
    m.done.andThen next = next m := by
  simp [Machine.done, andThen]

/-- Doing nothing last adds nothing. -/
theorem andThen_done (outcome : Outcome) :
    outcome.andThen Machine.done = outcome := by
  obtain ⟨m, _ | failure, events⟩ := outcome <;> simp [Machine.done, andThen]

/-- Steps can be grouped at will. -/
theorem andThen_assoc (outcome : Outcome) (second third : Machine → Outcome) :
    (outcome.andThen second).andThen third =
      outcome.andThen fun m => (second m).andThen third := by
  obtain ⟨m, _ | failure, events⟩ := outcome
  · simp only [andThen]
    obtain ⟨m', _ | failure', events'⟩ := second m <;> simp [Array.append_assoc]
  · rfl

end Outcome

end StackQueue
