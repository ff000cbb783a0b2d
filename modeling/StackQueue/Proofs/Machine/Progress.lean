import StackQueue.Proofs.Machine.Atomicity

/-!
# How far a run gets

Statements are carried out one after the other up to the first that fails, and the output only
grows meanwhile. In plentiful storage, a failure that is not one of the output blames the line of
its statement.
-/

namespace StackQueue

/-- Behind a success the next step decides how things end. -/
theorem Outcome.andThen_of_success {outcome : Outcome} (next : Machine → Outcome)
    (h : outcome.failure? = none) :
    outcome.andThen next =
      { next outcome.machine with events := outcome.events ++ (next outcome.machine).events } := by
  obtain ⟨m, failure?, events⟩ := outcome
  cases h
  rfl

namespace Sink

variable {before between after : Sink}

/-- The second output is the first one after some octets have been taken. -/
def GrowsTo (before after : Sink) : Prop :=
  ∃ octets : List UInt8, after = { before with written := before.written ++ octets }

theorem GrowsTo.refl (sink : Sink) : sink.GrowsTo sink := by
  refine ⟨[], ?_⟩
  rw [Array.appendList_nil]

theorem GrowsTo.trans (h : before.GrowsTo between) (h' : between.GrowsTo after) :
    before.GrowsTo after := by
  obtain ⟨first, rfl⟩ := h
  obtain ⟨second, rfl⟩ := h'
  refine ⟨first ++ second, ?_⟩
  rw [append_append]

theorem GrowsTo.limit_eq (h : before.GrowsTo after) : after.limit = before.limit := by
  obtain ⟨octets, rfl⟩ := h
  rfl

theorem GrowsTo.failsFlush_eq (h : before.GrowsTo after) :
    after.failsFlush = before.failsFlush := by
  obtain ⟨octets, rfl⟩ := h
  rfl

theorem GrowsTo.isPrefix (h : before.GrowsTo after) :
    before.written.toList <+: after.written.toList := by
  obtain ⟨octets, rfl⟩ := h
  refine ⟨octets, ?_⟩
  rw [Array.toList_appendList]

theorem GrowsTo.size_le (h : before.GrowsTo after) : before.written.size ≤ after.written.size := by
  simpa only [Array.length_toList] using h.isPrefix.length_le

theorem growsTo_write (sink : Sink) (chunk : List UInt8) : sink.GrowsTo (sink.write chunk).2 :=
  ⟨sink.accepted chunk, rfl⟩

end Sink

namespace Instruction

variable {mode : Mode} {line : Nat} {failure : Failure}

/-- In plentiful storage, an instruction that cannot be carried out blames its own line. -/
theorem line?_of_perform {instruction : Instruction} {s : Sequence}
    (h : (instruction.perform mode line s).1 = .error failure) : failure.line? = some line := by
  cases instruction with
  | push value =>
      rw [perform_push] at h
      cases h
  | pall | nop | pstr | rotl | rotr => cases h
  | pint | pop | swap =>
      simp only [perform] at h
      split at h
      · cases h
        rfl
      · cases h
  | arith op =>
      simp only [perform] at h
      split at h
      · cases h
        rfl
      · split at h
        · cases h
          rfl
        · cases h
  | pchar =>
      simp only [perform] at h
      split at h
      · cases h
        rfl
      · split at h
        · cases h
        · cases h
          rfl

end Instruction

namespace Machine

variable {m : Machine} {line : Nat} {statement : Statement} {failure : Failure}
  {instruction : Instruction} {word : String} {operand? : Option String}
  {statements : List (Nat × Statement)} {storage : Storage}

/-! ### How statements end -/

/-- An instruction fails and changes nothing, or it is carried out, or the output does not take all
that it prints. -/
theorem execute_cases (m : Machine) (line : Nat) (instruction : Instruction) :
    (∃ failure, (instruction.perform m.mode line m.sequence).1 = .error failure ∧
      m.execute line instruction = m.failed failure) ∨
    (∃ printed : List UInt8, m.execute line instruction =
      done ⟨m.mode, (instruction.perform m.mode line m.sequence).2,
        { m.sink with written := m.sink.written ++ printed }⟩) ∨
    ∃ printed : List UInt8, m.execute line instruction =
      failed { m with sink := (m.sink.write printed).2 } .output := by
  cases hperform : (instruction.perform m.mode line m.sequence).1 with
  | error failure => exact Or.inl ⟨failure, rfl, execute_of_error hperform⟩
  | ok printed =>
      right
      cases hfits : m.sink.fits printed with
      | true => exact Or.inl ⟨printed, execute_of_fits hperform hfits⟩
      | false => exact Or.inr ⟨printed, execute_of_not_fits hperform hfits⟩

theorem dispatch_of_error (h : Instruction.resolve word operand? line = .error failure) :
    m.dispatch line word operand? storage = m.failed failure := by
  rw [dispatch, h]

theorem dispatch_of_comment (h : Instruction.resolve word operand? line = .ok none) :
    m.dispatch line word operand? storage = m.done.after (.comment line) := by
  rw [dispatch, h]

theorem dispatch_of_instruction
    (h : Instruction.resolve word operand? line = .ok (some instruction)) :
    m.dispatch line word operand? storage =
      (m.execute line instruction storage).after
        (.dispatch line instruction m.sequence.length) := by
  rw [dispatch, h]

/-- A mode line puts its mode in force and never fails. -/
theorem step_mode (m : Machine) (line : Nat) (selected : Mode) :
    m.step line (.mode selected) =
      ⟨{ m with mode := selected }, none,
        if m.mode = selected then #[] else #[.modeChanged selected]⟩ := by
  rw [step, setMode]
  split
  · next h =>
      subst h
      rfl
  · rfl

/-- Carrying out an instruction reports nothing by itself. -/
theorem events_execute (m : Machine) (line : Nat) (instruction : Instruction) :
    (m.execute line instruction).events = #[] := by
  obtain ⟨failure, -, h⟩ | ⟨printed, h⟩ | ⟨printed, h⟩ := execute_cases m line instruction <;>
    rw [h] <;> rfl

/-- Carrying out an instruction leaves the mode alone. -/
theorem mode_execute (m : Machine) (line : Nat) (instruction : Instruction) :
    (m.execute line instruction).machine.mode = m.mode := by
  obtain ⟨failure, -, h⟩ | ⟨printed, h⟩ | ⟨printed, h⟩ := execute_cases m line instruction <;>
    rw [h] <;> rfl

/-! ### The output grows -/

theorem growsTo_execute (m : Machine) (line : Nat) (instruction : Instruction) :
    m.sink.GrowsTo (m.execute line instruction).machine.sink := by
  obtain ⟨failure, -, h⟩ | ⟨printed, h⟩ | ⟨printed, h⟩ := execute_cases m line instruction
  · rw [h]
    exact .refl _
  · rw [h]
    exact ⟨printed, rfl⟩
  · rw [h]
    exact Sink.growsTo_write m.sink printed

theorem growsTo_step (m : Machine) (line : Nat) (statement : Statement) :
    m.sink.GrowsTo (m.step line statement).machine.sink := by
  cases statement with
  | blank => exact .refl _
  | mode selected =>
      rw [step_mode]
      exact .refl _
  | op word operand? =>
      rw [step]
      cases hresolve : Instruction.resolve word operand? line with
      | error failure =>
          rw [dispatch_of_error hresolve]
          exact .refl _
      | ok instruction? =>
          cases instruction? with
          | none =>
              rw [dispatch_of_comment hresolve]
              exact .refl _
          | some instruction =>
              rw [dispatch_of_instruction hresolve]
              exact growsTo_execute m line instruction

theorem growsTo_andThen (outcome : Outcome) {next : Machine → Outcome}
    (h : ∀ m : Machine, m.sink.GrowsTo (next m).machine.sink) :
    outcome.machine.sink.GrowsTo (outcome.andThen next).machine.sink := by
  cases hfailure : outcome.failure? with
  | some failure =>
      rw [Outcome.andThen_of_failure hfailure]
      exact .refl _
  | none =>
      rw [Outcome.andThen_of_success _ hfailure]
      exact h _

/-- A run preserves what every statement preserves. -/
theorem preserved_runStatements {P : Machine → Prop}
    (hstep : ∀ (m : Machine) (line : Nat) (statement : Statement), P m →
      P (m.step line statement storage).machine)
    (h : P m) (statements : List (Nat × Statement)) :
    P (m.runStatements statements storage).machine := by
  induction statements generalizing m with
  | nil => exact h
  | cons first statements ih =>
      obtain ⟨line, statement⟩ := first
      have hfirst := hstep m line statement h
      rw [runStatements_cons]
      cases hfailure : (m.step line statement storage).failure? with
      | some failure =>
          rw [Outcome.andThen_of_failure hfailure]
          exact hfirst
      | none =>
          rw [Outcome.andThen_of_success _ hfailure]
          exact ih hfirst

/-- A run only appends to the output and changes neither its limit nor its flushing. -/
theorem growsTo_runStatements (m : Machine) (statements : List (Nat × Statement)) :
    m.sink.GrowsTo (m.runStatements statements).machine.sink := by
  apply preserved_runStatements (P := fun after => m.sink.GrowsTo after.sink)
  · intro after line statement h
    exact h.trans (growsTo_step after line statement)
  · exact .refl _

/-! ### What is to blame -/

/-- An instruction that fails blames its own line, unless it blames the output. -/
theorem line?_of_execute (h : (m.execute line instruction).failure? = some failure)
    (hne : failure ≠ .output) : failure.line? = some line := by
  obtain ⟨cause, hperform, hexecute⟩ | ⟨printed, hexecute⟩ | ⟨printed, hexecute⟩ :=
    execute_cases m line instruction
  · rw [hexecute] at h
    cases h
    exact Instruction.line?_of_perform hperform
  · rw [hexecute] at h
    cases h
  · rw [hexecute] at h
    cases h
    exact absurd rfl hne

/-- A statement that fails blames its own line, unless it blames the output. -/
theorem line?_of_step (h : (m.step line statement).failure? = some failure)
    (hne : failure ≠ .output) : failure.line? = some line := by
  cases statement with
  | blank => cases h
  | mode selected =>
      rw [step_mode] at h
      cases h
  | op word operand? =>
      rw [step] at h
      cases hresolve : Instruction.resolve word operand? line with
      | error cause =>
          rw [dispatch_of_error hresolve] at h
          cases h
          obtain ⟨rfl, -⟩ | ⟨rfl, -⟩ := Instruction.resolve_eq_error_iff.mp hresolve <;> rfl
      | ok instruction? =>
          cases instruction? with
          | none =>
              rw [dispatch_of_comment hresolve] at h
              cases h
          | some instruction =>
              rw [dispatch_of_instruction hresolve] at h
              exact line?_of_execute h hne

/-- A statement that fails for another reason than the output leaves the output alone. -/
theorem sink_of_step (h : (m.step line statement).failure? = some failure)
    (hne : failure ≠ .output) : (m.step line statement).machine.sink = m.sink := by
  cases statement with
  | blank => rfl
  | mode selected => rw [step_mode]
  | op word operand? =>
      obtain ⟨-, -, hsink, -⟩ := dispatch_atomic m line word operand? _ failure h
      exact hsink hne

/-- Where an output takes everything, what is atomic never blames it. -/
theorem Atomic.ne_output {step : Machine → Outcome} (h : m.Atomic step)
    (hwide : m.sink.limit = none) : (step m).failure? ≠ some .output := by
  intro houtput
  -- Of what an atomic step prints, the output would have to hold a proper part.
  obtain ⟨-, -, -, hcut⟩ := h .output houtput
  obtain ⟨accepted, printed, -, hfailure, -⟩ := hcut rfl
  have hsame : m.unlimited = m := by
    unfold unlimited
    rw [← hwide]
  rw [hsame, houtput] at hfailure
  cases hfailure

/-- An output that takes everything is never to blame. -/
theorem step_ne_output (h : m.sink.limit = none) (line : Nat) (statement : Statement) :
    (m.step line statement).failure? ≠ some .output := by
  cases statement with
  | blank => exact (Option.some_ne_none _).symm
  | mode selected =>
      rw [step_mode]
      exact (Option.some_ne_none _).symm
  | op word operand? => exact (dispatch_atomic m line word operand? _).ne_output h

/-! ### The first failure -/

/-- A run that fails has carried out the statements in front of the one that failed. -/
theorem exists_of_failure (h : (m.runStatements statements storage).failure? = some failure) :
    ∃ before line statement later, statements = before ++ (line, statement) :: later ∧
      (m.runStatements before storage).failure? = none ∧
      ((m.runStatements before storage).machine.step line statement storage).failure? =
        some failure := by
  induction statements generalizing m with
  | nil => cases h
  | cons first statements ih =>
      obtain ⟨line, statement⟩ := first
      rw [runStatements_cons] at h
      cases hfailure : (m.step line statement storage).failure? with
      | some cause =>
          rw [Outcome.andThen_of_failure hfailure] at h
          exact ⟨[], line, statement, statements, rfl, rfl, h⟩
      | none =>
          rw [Outcome.andThen_of_success _ hfailure] at h
          obtain ⟨before, number, failing, later, rfl, hbefore, hfailing⟩ := ih h
          have hrun : (m.runStatements ((line, statement) :: before) storage).machine =
              ((m.step line statement storage).machine.runStatements before storage).machine := by
            rw [runStatements_cons, Outcome.andThen_of_success _ hfailure]
          refine ⟨(line, statement) :: before, number, failing, later, rfl, ?_, ?_⟩
          · rw [runStatements_cons, Outcome.andThen_of_success _ hfailure]
            exact hbefore
          · rw [hrun]
            exact hfailing

/-- Behind statements that were carried out, a failing one ends the run, whatever follows. -/
theorem runStatements_of_failure {before : List (Nat × Statement)}
    (hbefore : (m.runStatements before storage).failure? = none)
    (h : ((m.runStatements before storage).machine.step line statement storage).failure? =
      some failure)
    (later : List (Nat × Statement)) :
    m.runStatements (before ++ (line, statement) :: later) storage =
      (m.runStatements before storage).andThen fun m => m.step line statement storage := by
  rw [runStatements_append, Outcome.andThen_of_success _ hbefore,
    Outcome.andThen_of_success _ hbefore, runStatements_cons, Outcome.andThen_of_failure h]

end Machine

end StackQueue
