import StackQueue.Proofs.Machine.Progress

/-!
# The same machine in front of a narrower output

A machine whose output takes everything is compared with the same machine in front of an output
with a limit. An instruction does the same on both, except that it fails where it prints beyond the
limit. A run on the narrow output writes the first octets of what the wide run writes, and blames
the output exactly where these are not all.

## Implementation notes

`Sink.narrowed` keeps what the limit leaves of the octets written so far, so one relation serves
before and after the limit is reached: an instruction takes the narrowed machine to the narrowed
outcome in both cases. Runs are compared only from where there is room, since past the limit one
of the two has stopped.
-/

namespace StackQueue

namespace Sink

variable {sink : Sink} {limit : Option Nat} {failsFlush : Bool}

/-- Whether a number of octets is more than a limit lets through. -/
def overflows (limit : Option Nat) (size : Nat) : Bool :=
  limit.any fun capacity => capacity < size

/-- The first octets, as many as a limit lets through. -/
def clip : Option Nat → List UInt8 → List UInt8
  | none, octets => octets
  | some capacity, octets => octets.take capacity

/-- An output with its octets cut to a limit, and with a flush that may fail. -/
def narrowed (sink : Sink) (limit : Option Nat) (failsFlush : Bool) : Sink :=
  ⟨limit, failsFlush, (clip limit sink.written.toList).toArray⟩

theorem clip_of_not_overflows {octets : List UInt8}
    (h : overflows limit octets.length = false) : clip limit octets = octets := by
  cases limit with
  | none => rfl
  | some capacity =>
      have hle : octets.length ≤ capacity := by simpa [overflows] using h
      exact List.take_of_length_le hle

/-- Past the limit nothing more gets through. -/
theorem clip_of_overflows {octets others : List UInt8} (hfirst : octets <+: others)
    (h : overflows limit octets.length = true) : clip limit others = clip limit octets := by
  obtain ⟨more, rfl⟩ := hfirst
  cases limit with
  | none => simp [overflows] at h
  | some capacity =>
      have hlt : capacity < octets.length := by simpa [overflows] using h
      exact List.take_append_of_le_length (Nat.le_of_lt hlt)

theorem overflows_mono {size size' : Nat} (hle : size ≤ size')
    (h : overflows limit size = true) : overflows limit size' = true := by
  cases limit with
  | none => simp [overflows] at h
  | some capacity =>
      simp only [overflows, Option.any_some, decide_eq_true_eq] at h ⊢
      omega

/-- On a narrowed output nothing always fits, and something fits if it does not reach beyond the
limit. -/
theorem fits_narrowed_iff (sink : Sink) (limit : Option Nat) (failsFlush : Bool)
    (chunk : List UInt8) :
    (sink.narrowed limit failsFlush).fits chunk = true ↔
      chunk = [] ∨ overflows limit (sink.written.size + chunk.length) = false := by
  cases limit with
  | none => simp [narrowed, fits, overflows]
  | some capacity =>
      rw [← List.length_eq_zero_iff]
      simp only [narrowed, fits, clip, List.size_toArray, List.length_take, Array.length_toList,
        overflows, Option.any_some, decide_eq_true_eq, decide_eq_false_iff_not]
      omega

/-- A narrowed output takes what is left when a wide one has been narrowed afterwards. -/
theorem write_narrowed_snd (hwide : sink.limit = none) (limit : Option Nat) (failsFlush : Bool)
    (chunk : List UInt8) :
    ((sink.narrowed limit failsFlush).write chunk).2 =
      (sink.write chunk).2.narrowed limit failsFlush := by
  obtain ⟨sinkLimit, flush, written⟩ := sink
  cases hwide
  cases limit with
  | none =>
      simp only [narrowed, write, accepted, clip, Array.toArray_toList]
  | some capacity =>
      have hroom : capacity - min capacity written.size = capacity - written.size := by omega
      simp [narrowed, write, accepted, clip, List.take_append, hroom]

end Sink

namespace Machine

variable {m : Machine} {limit : Option Nat} {failsFlush : Bool}

/-- The same machine in front of a narrowed output. -/
def narrowed (m : Machine) (limit : Option Nat) (failsFlush : Bool) : Machine :=
  { m with sink := m.sink.narrowed limit failsFlush }

end Machine

namespace Outcome

/-- What becomes of an outcome in front of a narrowed output: it fails if more was printed than
the limit lets through. -/
def narrowed (outcome : Outcome) (limit : Option Nat) (failsFlush : Bool) : Outcome :=
  ⟨outcome.machine.narrowed limit failsFlush,
    if Sink.overflows limit outcome.machine.sink.written.size then some .output
    else outcome.failure?,
    outcome.events⟩

end Outcome

namespace Machine

variable {m : Machine} {limit : Option Nat} {failsFlush : Bool}

/-- An instruction on a narrowed machine fails where it prints something that reaches beyond the
limit, and otherwise ends as on the wide one. -/
theorem execute_narrowed (hwide : m.sink.limit = none) (line : Nat) (instruction : Instruction) :
    (m.narrowed limit failsFlush).execute line instruction =
      let outcome := m.execute line instruction
      ⟨outcome.machine.narrowed limit failsFlush,
        if outcome.machine.sink.written ≠ m.sink.written ∧
            Sink.overflows limit outcome.machine.sink.written.size = true then some .output
        else outcome.failure?,
        outcome.events⟩ := by
  cases hperform : (instruction.perform m.mode line m.sequence).1 with
  | error cause =>
      rw [execute_of_error hperform, execute_of_error (m := m.narrowed limit failsFlush) hperform]
      simp only [failed, ne_eq, not_true_eq_false, false_and, if_false]
  | ok printed =>
      have hfits : m.sink.fits printed = true := by rw [Sink.fits, hwide]
      have hsink := Sink.write_narrowed_snd hwide limit failsFlush printed
      rw [Sink.write_eq_of_fits hfits] at hsink
      have hwritten : m.sink.written ++ printed = m.sink.written ↔ printed = [] := by
        rw [← Array.toList_inj, Array.toList_appendList]
        exact List.append_right_eq_self
      have hiff := Sink.fits_narrowed_iff m.sink limit failsFlush printed
      rw [execute_of_fits hperform hfits]
      simp only [done, Sink.size_append, ne_eq, hwritten]
      cases hnarrow : (m.sink.narrowed limit failsFlush).fits printed with
      | true =>
          rw [Sink.write_eq_of_fits hnarrow] at hsink
          rw [execute_of_fits (m := m.narrowed limit failsFlush) hperform hnarrow, if_neg]
          · simp only [done, narrowed, ← hsink]
          · rintro ⟨hne, hover⟩
            rcases hiff.mp hnarrow with hnil | hroom
            · exact hne hnil
            · rw [hover] at hroom
              cases hroom
      | false =>
          have hcut : ¬ (printed = [] ∨
              Sink.overflows limit (m.sink.written.size + printed.length) = false) := by
            rw [← hiff, hnarrow]
            exact Bool.false_ne_true
          have hsame : (instruction.perform m.mode line m.sequence).2 = m.sequence := by
            cases printed with
            | nil => exact absurd (Or.inl rfl) hcut
            | cons octet others => exact Instruction.perform_of_printed hperform
          rw [execute_of_not_fits (m := m.narrowed limit failsFlush) hperform hnarrow, if_pos]
          · simp only [failed, narrowed, hsink, hsame]
          · simpa only [not_or, Bool.not_eq_false] using hcut

/-- A statement on a narrowed machine that has room left ends as on the wide one, unless what has
been printed then reaches beyond the limit. -/
theorem step_narrowed (failsFlush : Bool) (hwide : m.sink.limit = none)
    (hroom : Sink.overflows limit m.sink.written.size = false) (line : Nat)
    (statement : Statement) :
    (m.narrowed limit failsFlush).step line statement =
      (m.step line statement).narrowed limit failsFlush := by
  have hquiet : m.done.narrowed limit failsFlush = (m.narrowed limit failsFlush).done := by
    simp only [Outcome.narrowed, done, hroom, Bool.false_eq_true, if_false]
  cases statement with
  | blank => exact hquiet.symm
  | mode selected =>
      simp only [step_mode, Outcome.narrowed, narrowed, hroom, Bool.false_eq_true, if_false]
  | op word operand? =>
      rw [step, step]
      cases hresolve : Instruction.resolve word operand? line with
      | error cause =>
          rw [dispatch_of_error hresolve, dispatch_of_error hresolve]
          simp only [Outcome.narrowed, failed, hroom, Bool.false_eq_true, if_false]
      | ok instruction? =>
          cases instruction? with
          | none =>
              rw [dispatch_of_comment hresolve, dispatch_of_comment hresolve]
              exact congrArg (Outcome.after (.comment line)) hquiet.symm
          | some instruction =>
              -- There was room before, so beyond the limit something has been printed.
              have hprinted :
                  ((m.execute line instruction).machine.sink.written ≠ m.sink.written ∧
                    Sink.overflows limit
                      (m.execute line instruction).machine.sink.written.size = true) ↔
                  Sink.overflows limit
                    (m.execute line instruction).machine.sink.written.size = true := by
                constructor
                · exact And.right
                · intro hover
                  refine ⟨?_, hover⟩
                  intro hsame
                  rw [hsame, hroom] at hover
                  cases hover
              rw [dispatch_of_instruction hresolve, dispatch_of_instruction hresolve]
              simp only [execute_narrowed hwide, hprinted, Outcome.narrowed, Outcome.after]
              rfl

/-- A run on a narrowed machine that has room left writes what the limit leaves of what the wide
run writes. If that is not all, the output is to blame, and otherwise both runs end alike. -/
theorem runStatements_narrowed (hwide : m.sink.limit = none)
    (hroom : Sink.overflows limit m.sink.written.size = false)
    (statements : List (Nat × Statement)) :
    let wide := m.runStatements statements
    let narrow := (m.narrowed limit failsFlush).runStatements statements
    narrow.machine.sink = wide.machine.sink.narrowed limit failsFlush ∧
      narrow.failure? =
        if Sink.overflows limit wide.machine.sink.written.size then some .output
        else wide.failure? := by
  induction statements generalizing m with
  | nil =>
      simp only [runStatements_nil, done, hroom, Bool.false_eq_true, if_false, narrowed, and_self]
  | cons first statements ih =>
      obtain ⟨line, statement⟩ := first
      have hnarrow := step_narrowed failsFlush hwide hroom line statement
      simp only [runStatements_cons, hnarrow]
      cases hover : Sink.overflows limit (m.step line statement).machine.sink.written.size with
      | true =>
          -- The narrow run stops here, and whatever the wide one still prints is beyond the limit.
          have hgrows := growsTo_andThen (m.step line statement) fun m =>
            growsTo_runStatements m statements
          have houtput : ((m.step line statement).narrowed limit failsFlush).failure? =
              some .output := by
            rw [Outcome.narrowed, if_pos hover]
          have hclip := Sink.clip_of_overflows hgrows.isPrefix (by rwa [Array.length_toList])
          rw [Outcome.andThen_of_failure houtput, houtput,
            if_pos (Sink.overflows_mono hgrows.size_le hover)]
          refine ⟨?_, rfl⟩
          simp only [Outcome.narrowed, narrowed, Sink.narrowed, hclip]
      | false =>
          have hend : ((m.step line statement).narrowed limit failsFlush).failure? =
              (m.step line statement).failure? := by
            rw [Outcome.narrowed, hover, if_neg Bool.false_ne_true]
          cases hfailure : (m.step line statement).failure? with
          | some failure =>
              rw [hfailure] at hend
              rw [Outcome.andThen_of_failure hend, Outcome.andThen_of_failure hfailure, hend, hover,
                if_neg Bool.false_ne_true, hfailure]
              exact ⟨rfl, rfl⟩
          | none =>
              rw [hfailure] at hend
              rw [Outcome.andThen_of_success _ hend, Outcome.andThen_of_success _ hfailure]
              exact ih ((growsTo_step m line statement).limit_eq.trans hwide) hover

end Machine

end StackQueue
