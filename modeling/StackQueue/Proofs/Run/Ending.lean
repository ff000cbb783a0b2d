import StackQueue.Proofs.Machine.Progress
import StackQueue.Run

/-!
# How a run ends

The lines of a program decide what its run writes. After them the values are dropped and the output
is flushed, which adds events and perhaps a failure, and never an octet.
-/

namespace StackQueue

/-- What the caller of a run is given. -/
structure Answer where
  status : Nat
  output : List UInt8
  diagnostic : String
  deriving DecidableEq

namespace Run

variable {source : String} {sink : Sink}

def answer (run : Run) : Answer :=
  ⟨run.status, run.output.toList, run.diagnostic⟩

/-- The outcome of the lines of a program, before the values are dropped. -/
def body (source : String) (sink : Sink) : Outcome :=
  (Machine.start sink).runSource source

theorem growsTo_body (source : String) (sink : Sink) :
    sink.GrowsTo (body source sink).machine.sink :=
  Machine.growsTo_runStatements _ _

theorem release_eq (m : Machine) :
    m.release = ⟨{ m with sequence := .empty },
      if m.sink.failsFlush then some .output else none, #[.released m.sequence.length]⟩ := by
  obtain ⟨mode, s, sink⟩ := m
  unfold Machine.release Sequence.releaseAll
  cases hflush : sink.failsFlush <;> simp [Machine.failed, Machine.done, Outcome.after, hflush]

/-- A run writes what its lines write. -/
theorem output_ofSource (source : String) (sink : Sink) :
    (ofSource source sink).output = (body source sink).machine.sink.written := by
  simp only [ofSource, release_eq, body]

/-- A failure of the lines is reported before a failure of the flush. -/
theorem failure?_ofSource (source : String) (sink : Sink) :
    (ofSource source sink).failure? =
      (body source sink).failure?.or (if sink.failsFlush then some .output else none) := by
  rw [← (growsTo_body source sink).failsFlush_eq]
  simp only [ofSource, release_eq]
  rfl

theorem failure?_ofSource_unbounded (source : String) :
    (ofSource source Sink.unbounded).failure? = (body source Sink.unbounded).failure? := by
  rw [failure?_ofSource]
  exact Option.or_none

/-- Behind the events of the lines, a run tells how many values it dropped, and whether it
failed. -/
theorem events_ofSource (source : String) (sink : Sink) :
    (ofSource source sink).events.toList =
      (body source sink).events.toList ++
        .released (body source sink).machine.sequence.length ::
          ((ofSource source sink).failure?.map fun failure => .aborted failure.line?).toList := by
  simp only [ofSource, release_eq, body, Array.toList_append, List.append_assoc,
    Option.toList_toArray, List.cons_append, List.nil_append]

theorem status_eq_one_iff {run : Run} :
    run.status = 1 ↔ ∃ failure, run.failure? = some failure := by
  unfold status
  cases run.failure? with
  | none => simp
  | some failure => simp [Failure.status]

theorem status_eq_zero_iff {run : Run} : run.status = 0 ↔ run.failure? = none := by
  unfold status
  cases run.failure? with
  | none => simp
  | some failure => simp [Failure.status]

/-- The answer of a run that has failed. -/
theorem answer_of_failure {run : Run} {failure : Failure} (h : run.failure? = some failure) :
    run.answer = ⟨1, run.output.toList, failure.diagnostic⟩ := by
  simp only [answer, status, diagnostic, h, Failure.status]

/-- The answer of a run that has succeeded. -/
theorem answer_of_success {run : Run} (h : run.failure? = none) :
    run.answer = ⟨0, run.output.toList, ""⟩ := by
  simp only [answer, status, diagnostic, h]

end Run

end StackQueue
