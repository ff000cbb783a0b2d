import StackQueue.Proofs.Run.Ending
import StackQueue.Proofs.Text.Cutting

/-!
# Runs that nobody observes

A program carried out without a word about its events: a machine and perhaps a failure are all that
a line leaves. Unobserved, a run gives the answer that it gives otherwise, so events are told and
never asked for.
-/

namespace StackQueue.Unobserved

/-- What an outcome leaves when its events are forgotten. -/
def forget (outcome : Outcome) : Machine × Option Failure :=
  (outcome.machine, outcome.failure?)

/-- Carry out the statement of the given line. -/
def step (m : Machine) (line : Nat) : Statement → Machine × Option Failure
  | .blank => (m, none)
  | .mode selected => ({ m with mode := selected }, none)
  | .op word operand? =>
      match Instruction.resolve word operand? line with
      | .error failure => (m, some failure)
      | .ok none => (m, none)
      | .ok (some instruction) => forget (m.execute line instruction)

/-- Carry out lines that are numbered from `number` on up to the first failure. -/
def runLines (m : Machine) (number : Nat) : List (List Char) → Machine × Option Failure
  | [] => (m, none)
  | text :: texts =>
      match step m number (Statement.ofLine text) with
      | (m, some failure) => (m, some failure)
      | (m, none) => runLines m (number + 1) texts

/-- The answer of a machine that has failed, or else may fail when its output is flushed. -/
def report (m : Machine) : Option Failure → Answer
  | some failure => ⟨1, m.sink.written.toList, failure.diagnostic⟩
  | none =>
      if m.sink.failsFlush then ⟨1, m.sink.written.toList, Failure.output.diagnostic⟩
      else ⟨0, m.sink.written.toList, ""⟩

/-- The answer to the text of a program. -/
def run (source : String) (sink : Sink) : Answer :=
  let (m, failure?) := runLines (Machine.start sink) 1 (Text.lines source.toList)
  report m failure?

theorem forget_step (m : Machine) (line : Nat) (statement : Statement) :
    forget (m.step line statement) = step m line statement := by
  cases statement with
  | blank => rfl
  | mode selected =>
      rw [Machine.step_mode]
      rfl
  | op word operand? =>
      simp only [Machine.step, Machine.dispatch, step]
      cases Instruction.resolve word operand? line with
      | error failure => rfl
      | ok instruction? => cases instruction? <;> rfl

theorem forget_runStatements (m : Machine) (number : Nat) (texts : List (List Char)) :
    forget (m.runStatements (Statement.numberedFrom number texts)) = runLines m number texts := by
  induction texts generalizing m number with
  | nil => rfl
  | cons text texts ih =>
      have hstep := forget_step m number (Statement.ofLine text)
      rw [Statement.numberedFrom_cons, Machine.runStatements_cons, runLines, ← hstep]
      cases hfailure : (m.step number (Statement.ofLine text)).failure? with
      | some failure =>
          rw [Outcome.andThen_of_failure hfailure]
          simp only [forget, hfailure]
      | none =>
          rw [Outcome.andThen_of_success _ hfailure]
          simp only [forget, hfailure]
          exact ih _ _

/-- The answer of a run is settled by the machine and the failure that its lines leave. -/
theorem answer_eq_report (source : String) (sink : Sink) :
    (Run.ofSource source sink).answer =
      report (Run.body source sink).machine (Run.body source sink).failure? := by
  have hfailure := Run.failure?_ofSource source sink
  have hflush := (Run.growsTo_body source sink).failsFlush_eq
  rw [← hflush] at hfailure
  cases hbody : (Run.body source sink).failure? with
  | some failure =>
      rw [hbody, Option.some_or] at hfailure
      rw [Run.answer_of_failure hfailure, Run.output_ofSource, report]
  | none =>
      rw [hbody, Option.none_or] at hfailure
      cases hfails : (Run.body source sink).machine.sink.failsFlush with
      | true =>
          rw [hfails, if_pos rfl] at hfailure
          rw [Run.answer_of_failure hfailure, Run.output_ofSource, report, hfails, if_pos rfl]
      | false =>
          rw [hfails, if_neg Bool.false_ne_true] at hfailure
          rw [Run.answer_of_success hfailure, Run.output_ofSource, report, hfails,
            if_neg Bool.false_ne_true]

/-- Observed or not, a run gives the same answer. -/
theorem answer_ofSource (source : String) (sink : Sink) :
    (Run.ofSource source sink).answer = run source sink := by
  have hforget := forget_runStatements (Machine.start sink) 1 (Text.lines source.toList)
  rw [answer_eq_report, run, ← hforget]
  rfl

end StackQueue.Unobserved
