import StackQueue.Proofs.Instruction.Resolution
import StackQueue.Proofs.Machine.Execution

/-!
# Steps that fail

A step that fails leaves the mode and every cell, free slot and end of the sequence as they were,
also where it is storage that is refused. Only a failure of the output has written something
before: a proper first part of what the step prints where there is room for all of it.

## Implementation notes

A machine prints all that an instruction prints in one write. The cut is the same where the same
octets are written piece by piece, and `CutShort` says so for every division into pieces.
-/

namespace StackQueue

namespace Machine

variable {m : Machine} {line : Nat} {instruction : Instruction} {storage : Storage}

/-- The same machine in front of an output that takes everything. -/
def unlimited (m : Machine) : Machine :=
  { m with sink := { m.sink with limit := none } }

/-- The output holds a proper first part of what the step prints where nothing limits it, and this
part ends where writing it piece by piece stops, whatever the pieces are. -/
def CutShort (m : Machine) (step : Machine → Outcome) : Prop :=
  ∃ accepted printed : List UInt8,
    (step m).machine.sink = { m.sink with written := m.sink.written ++ accepted } ∧
    (step m.unlimited).failure? = none ∧
    (step m.unlimited).machine.sink.written = m.sink.written ++ printed ∧
    accepted <+: printed ∧ accepted ≠ printed ∧
    ∀ pieces : List (List UInt8), pieces.flatten = printed →
      m.sink.writeEach pieces = (false, (step m).machine.sink)

/-- A failure of the step changes neither the mode nor the sequence, and the output only if it is
the output that failed. -/
def Atomic (m : Machine) (step : Machine → Outcome) : Prop :=
  ∀ failure, (step m).failure? = some failure →
    (step m).machine.mode = m.mode ∧ (step m).machine.sequence = m.sequence ∧
      (failure ≠ .output → (step m).machine.sink = m.sink) ∧
      (failure = .output → m.CutShort step)

/-- A write that does not fit is cut short. -/
theorem execute_cutShort {printed : List UInt8}
    (h : (instruction.perform m.mode line m.sequence storage).1 = .ok printed)
    (hfits : m.sink.fits printed = false) :
    m.CutShort fun m => m.execute line instruction storage := by
  have hlimited := execute_of_not_fits h hfits
  have hunlimited := execute_of_fits (m := m.unlimited) h rfl
  obtain ⟨hproper, hne⟩ := Sink.accepted_proper_of_not_fits hfits
  refine ⟨m.sink.accepted printed, printed, ?_, ?_, ?_, hproper, hne, ?_⟩
  · exact congrArg (fun outcome => outcome.machine.sink) hlimited
  · exact congrArg Outcome.failure? hunlimited
  · exact congrArg (fun outcome => outcome.machine.sink.written) hunlimited
  · rintro pieces rfl
    rw [Sink.writeEach_eq_write]
    apply Prod.ext
    · exact hfits
    · exact congrArg (fun outcome => outcome.machine.sink) hlimited.symm

/-- A failure on an unchanged machine is atomic unless it blames the output. -/
theorem atomic_of_eq_failed {step : Machine → Outcome} {cause : Failure}
    (h : step m = m.failed cause) (hne : cause ≠ .output) : m.Atomic step := by
  intro failure hfailure
  rw [h] at hfailure ⊢
  cases hfailure
  refine ⟨rfl, rfl, ?_, ?_⟩
  · intro _
    rfl
  · intro houtput
    exact absurd houtput hne

/-- What cannot fail is atomic. -/
theorem atomic_of_no_failure {step : Machine → Outcome} (h : (step m).failure? = none) :
    m.Atomic step := by
  intro failure hfailure
  rw [h] at hfailure
  cases hfailure

/-- Reports make no difference. -/
theorem Atomic.after {step : Machine → Outcome} (h : m.Atomic step) (event : Machine → Event) :
    m.Atomic fun m => (step m).after (event m) :=
  h

theorem execute_atomic (m : Machine) (line : Nat) (instruction : Instruction)
    (storage : Storage) : m.Atomic fun m => m.execute line instruction storage := by
  cases hperform : (instruction.perform m.mode line m.sequence storage).1 with
  | error cause =>
      apply atomic_of_eq_failed (execute_of_error hperform)
      rintro rfl
      exact Instruction.perform_ne_output instruction m.mode line m.sequence storage hperform
  | ok printed =>
      cases hfits : m.sink.fits printed with
      | true =>
          apply atomic_of_no_failure
          exact congrArg Outcome.failure? (execute_of_fits hperform hfits)
      | false =>
          have hexecute := execute_of_not_fits hperform hfits
          intro failure (hfailure : (m.execute line instruction storage).failure? = some failure)
          have houtput : failure = .output := by
            rw [hexecute] at hfailure
            exact (Option.some.inj hfailure).symm
          refine ⟨?_, ?_, ?_, ?_⟩
          · exact congrArg (fun outcome => outcome.machine.mode) hexecute
          · exact congrArg (fun outcome => outcome.machine.sequence) hexecute
          · intro hne
            exact absurd houtput hne
          · intro _
            exact execute_cutShort hperform hfits

theorem dispatch_atomic (m : Machine) (line : Nat) (word : String) (operand? : Option String)
    (storage : Storage) : m.Atomic fun m => m.dispatch line word operand? storage := by
  unfold dispatch
  cases hresolve : Instruction.resolve word operand? line with
  | error cause =>
      apply atomic_of_eq_failed rfl
      rintro rfl
      exact Instruction.resolve_ne_output word operand? line hresolve
  | ok instruction? =>
      cases instruction? with
      | none => exact atomic_of_no_failure rfl
      | some instruction =>
          exact (execute_atomic m line instruction storage).after fun m =>
            .dispatch line instruction m.sequence.length

/-- A step that fails changes neither the mode nor the sequence, and of what it prints the output
holds nothing or, if it is the output that failed, a proper first part. This holds whatever storage
is granted or refused. -/
theorem dispatch_and_step_atomic (m : Machine) (line : Nat) (storage : Storage) :
    (∀ word operand?, m.Atomic fun m => m.dispatch line word operand? storage) ∧
      ∀ statement, m.Atomic fun m => m.step line statement storage := by
  refine ⟨fun word operand? => dispatch_atomic m line word operand? storage, ?_⟩
  intro statement
  cases statement with
  | blank => exact atomic_of_no_failure rfl
  | mode selected =>
      apply atomic_of_no_failure
      simp only [step, setMode]
      split <;> rfl
  | op word operand? => exact dispatch_atomic m line word operand? storage

example : ((start (Sink.fresh (some 3) false)).runSource
    "push 1\npush 2\npall").machine.sink.written = #[50, 10, 49] := by decide +kernel

example : ((start Sink.unbounded).step 1 (.op "push" (some "5")) (.bounded 0)).failure? =
    some .allocation := by decide +kernel

end Machine

end StackQueue
