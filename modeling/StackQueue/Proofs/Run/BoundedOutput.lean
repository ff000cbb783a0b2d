import StackQueue.Proofs.Machine.Narrowing
import StackQueue.Proofs.Run.Ending

/-!
# Runs in front of an output with a limit

The answer of a run is settled by the answer of the same run in front of an output that takes
everything. An output with a limit gets the first octets of what is printed and is to blame exactly
if these are not all, whatever the run would have failed for later. A flush that fails matters only
where the run succeeds.
-/

namespace StackQueue

namespace Answer

/-- What a run writes to its error stream if its output is to blame. -/
def outputComplaint : String := "Error: Can't write output\n"

/-- What a flush makes of an answer. A run that has failed already keeps its own diagnostic. -/
def flushed (ideal : Answer) (failsFlush : Bool) : Answer :=
  if ideal.status = 1 then ⟨1, ideal.output, ideal.diagnostic⟩
  else if failsFlush then ⟨1, ideal.output, outputComplaint⟩
  else ⟨0, ideal.output, ""⟩

/-- What becomes of an answer in front of an output with a limit. -/
def behind (ideal : Answer) (failsFlush : Bool) : Option Nat → Answer
  | none => ideal.flushed failsFlush
  | some capacity =>
      if capacity < ideal.output.length then
        ⟨1, ideal.output.take capacity, outputComplaint⟩
      else
        ideal.flushed failsFlush

theorem behind_of_overflows {ideal : Answer} {failsFlush : Bool} {limit : Option Nat}
    (h : Sink.overflows limit ideal.output.length = true) :
    ideal.behind failsFlush limit = ⟨1, Sink.clip limit ideal.output, outputComplaint⟩ := by
  cases limit with
  | none => cases h
  | some capacity => exact if_pos (by simpa [Sink.overflows] using h)

theorem behind_of_not_overflows {ideal : Answer} {failsFlush : Bool} {limit : Option Nat}
    (h : Sink.overflows limit ideal.output.length = false) :
    ideal.behind failsFlush limit = ideal.flushed failsFlush := by
  cases limit with
  | none => rfl
  | some capacity => exact if_neg (by simpa [Sink.overflows] using h)

end Answer

namespace Run

theorem diagnostic_output : Failure.output.diagnostic = Answer.outputComplaint := by
  decide +kernel

theorem start_fresh (limit : Option Nat) (failsFlush : Bool) :
    Machine.start (Sink.fresh limit failsFlush) =
      (Machine.start Sink.unbounded).narrowed limit failsFlush := by
  cases limit <;> simp [Machine.start, Machine.narrowed, Sink.narrowed, Sink.fresh,
    Sink.unbounded, Sink.clip]

/-- Behind an output with a limit, the lines of a program write what the limit leaves, and blame
the output if that is not all. -/
theorem body_fresh (source : String) (limit : Option Nat) (failsFlush : Bool) :
    let wide := body source Sink.unbounded
    let narrow := body source (Sink.fresh limit failsFlush)
    narrow.machine.sink = wide.machine.sink.narrowed limit failsFlush ∧
      narrow.failure? =
        if Sink.overflows limit wide.machine.sink.written.size then some .output
        else wide.failure? := by
  have hroom : Sink.overflows limit (Machine.start Sink.unbounded).sink.written.size = false := by
    cases limit <;> simp [Sink.overflows, Machine.start, Sink.unbounded, Sink.fresh]
  unfold body Machine.runSource
  rw [start_fresh]
  exact Machine.runStatements_narrowed rfl hroom _

/-- The answers of two runs are related as their outputs and failures are. -/
theorem answer_eq_behind {wide narrow : Run} {limit : Option Nat} {failsFlush : Bool}
    (hwritten : narrow.output.toList = Sink.clip limit wide.output.toList)
    (hfailure : narrow.failure? =
      (if Sink.overflows limit wide.output.toList.length then some .output
        else wide.failure?).or (if failsFlush then some .output else none)) :
    narrow.answer = wide.answer.behind failsFlush limit := by
  cases hover : Sink.overflows limit wide.output.toList.length with
  | true =>
      rw [hover, if_pos rfl, Option.some_or] at hfailure
      rw [Answer.behind_of_overflows hover, answer_of_failure hfailure, hwritten,
        diagnostic_output]
      rfl
  | false =>
      rw [hover, if_neg Bool.false_ne_true] at hfailure
      rw [Sink.clip_of_not_overflows hover] at hwritten
      rw [Answer.behind_of_not_overflows hover]
      cases hideal : wide.failure? with
      | some failure =>
          rw [hideal, Option.some_or] at hfailure
          rw [answer_of_failure hfailure, answer_of_failure hideal, hwritten]
          rfl
      | none =>
          rw [hideal, Option.none_or] at hfailure
          rw [answer_of_success hideal]
          cases failsFlush with
          | true =>
              rw [answer_of_failure hfailure, hwritten, diagnostic_output]
              rfl
          | false =>
              rw [answer_of_success hfailure, hwritten]
              rfl

/-- An output with a limit gets the first octets of what a run prints and is to blame if these are
not all. If they are all, the run ends as it would otherwise, except that a flush that fails is
reported where the run itself did not fail. -/
theorem answer_behind_limit (source : String) (limit : Option Nat) (failsFlush : Bool) :
    (ofSource source (Sink.fresh limit failsFlush)).answer =
      (ofSource source Sink.unbounded).answer.behind failsFlush limit := by
  obtain ⟨hsink, hfailure⟩ := body_fresh source limit failsFlush
  apply answer_eq_behind
  · rw [output_ofSource, output_ofSource, hsink]
    rfl
  · rw [failure?_ofSource, hfailure, failure?_ofSource_unbounded, output_ofSource,
      Array.length_toList]
    rfl

end Run

end StackQueue
