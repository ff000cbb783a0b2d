import StackQueue.Proofs.Machine.Listing
import StackQueue.Proofs.Run.FirstFailure

/-!
# Runs that are refused storage

Storage can only stop a run. Up to its first refusal a run does what it does in plentiful storage.
The line that is refused storage asks for a `push`, which is reported and changes nothing; the
diagnostic blames no line for it.
-/

namespace StackQueue

variable {storage : Storage}

namespace Instruction

variable {instruction : Instruction} {mode : Mode} {line : Nat} {s : Sequence}

/-- Only a push is refused storage, and only where there is no room for its value. -/
theorem perform_eq_allocation_iff :
    (instruction.perform mode line s storage).1 = .error .allocation ↔
      (∃ value, instruction = push value) ∧ s.hasRoom storage = false := by
  have hplentiful : (instruction.perform mode line s).1 ≠ .error .allocation := by
    intro h
    cases line?_of_perform h
  constructor
  · intro h
    cases hroom : s.hasRoom storage with
    | true =>
        rw [perform_of_hasRoom hroom] at h
        exact absurd h hplentiful
    | false =>
        refine ⟨?_, rfl⟩
        cases instruction with
        | push value => exact ⟨value, rfl⟩
        | pall | pint | pop | nop | swap | arith | pchar | pstr | rotl | rotr =>
            exact absurd h hplentiful
  · rintro ⟨⟨value, rfl⟩, hroom⟩
    rw [perform_push_of_not_hasRoom hroom]

/-- An instruction that is not refused storage does what it does in plentiful storage. -/
theorem perform_of_ne_allocation
    (h : (instruction.perform mode line s storage).1 ≠ .error .allocation) :
    instruction.perform mode line s storage = instruction.perform mode line s := by
  cases hroom : s.hasRoom storage with
  | true => exact perform_of_hasRoom hroom instruction mode line
  | false =>
      apply perform_of_ne_push
      intro value hpush
      exact h (perform_eq_allocation_iff.mpr ⟨⟨value, hpush⟩, hroom⟩)

end Instruction

namespace Machine

variable {m : Machine} {line : Nat} {statement : Statement} {statements : List (Nat × Statement)}
  {value : Int32}

/-- A statement asks for a push for which the storage leaves no room. -/
def Refuses (m : Machine) (storage : Storage) (line : Nat) (statement : Statement)
    (value : Int32) : Prop :=
  statement.action? line = .ok (some (.perform (.push value))) ∧
    m.sequence.hasRoom storage = false

/-- The outcome of a push that is refused storage. -/
def refused (m : Machine) (line : Nat) (value : Int32) : Outcome :=
  (m.failed .allocation).after (.dispatch line (.push value) m.sequence.length)

/-! ### A statement that is refused storage -/

theorem step_of_refuses (h : m.Refuses storage line statement value) :
    m.step line statement storage = m.refused line value := by
  have hperform := Instruction.perform_push_of_not_hasRoom h.2 m.mode line value
  rw [step_of_asks h.1, execute_of_error (congrArg Prod.fst hperform)]
  rfl

/-- A statement does what it does in plentiful storage, unless it is refused storage. -/
theorem refuses_or_step_eq (m : Machine) (line : Nat) (statement : Statement)
    (storage : Storage) :
    (∃ value, m.Refuses storage line statement value) ∨
      m.step line statement storage = m.step line statement := by
  by_cases hasks : ∃ instruction, statement.action? line = .ok (some (.perform instruction))
  · obtain ⟨instruction, hasks⟩ := hasks
    by_cases h : (instruction.perform m.mode line m.sequence storage).1 = .error .allocation
    · obtain ⟨⟨value, rfl⟩, hroom⟩ := Instruction.perform_eq_allocation_iff.mp h
      exact Or.inl ⟨value, hasks, hroom⟩
    · right
      rw [step_of_asks hasks, step_of_asks hasks]
      simp only [execute, Instruction.perform_of_ne_allocation h]
  · exact Or.inr (step_of_not_asks (not_exists.mp hasks) m storage).1

/-- In plentiful storage no statement is refused storage. -/
theorem step_ne_allocation (m : Machine) (line : Nat) (statement : Statement) :
    (m.step line statement).failure? ≠ some .allocation := by
  intro h
  cases line?_of_step h Failure.noConfusion

/-- A statement fails for want of storage exactly if it asks for a push for which there is no
room. -/
theorem failure?_step_eq_allocation_iff :
    (m.step line statement storage).failure? = some .allocation ↔
      ∃ value, m.Refuses storage line statement value := by
  constructor
  · intro h
    refine (refuses_or_step_eq m line statement storage).resolve_right ?_
    intro heq
    rw [heq] at h
    exact step_ne_allocation m line statement h
  · rintro ⟨value, h⟩
    rw [step_of_refuses h]
    rfl

/-! ### The first refusal -/

/-- Statements that are not refused storage do what they do in plentiful storage. -/
theorem runStatements_of_ne_allocation
    (h : (m.runStatements statements storage).failure? ≠ some .allocation) :
    m.runStatements statements storage = m.runStatements statements := by
  induction statements generalizing m with
  | nil => rfl
  | cons first statements ih =>
      obtain ⟨line, statement⟩ := first
      rw [runStatements_cons] at h ⊢
      rw [runStatements_cons]
      have hstep : m.step line statement storage = m.step line statement := by
        refine (refuses_or_step_eq m line statement storage).resolve_left ?_
        intro hrefuses
        have hfailure := failure?_step_eq_allocation_iff.mpr hrefuses
        rw [Outcome.andThen_of_failure hfailure] at h
        exact h hfailure
      rw [hstep] at h ⊢
      cases hfailure : (m.step line statement).failure? with
      | some failure =>
          rw [Outcome.andThen_of_failure hfailure, Outcome.andThen_of_failure hfailure]
      | none =>
          rw [Outcome.andThen_of_success _ hfailure] at h
          rw [Outcome.andThen_of_success _ hfailure, Outcome.andThen_of_success _ hfailure, ih h]

/-- Statements that are refused storage have been carried out as in plentiful storage up to the one
that is refused. -/
theorem exists_refused (h : (m.runStatements statements storage).failure? = some .allocation) :
    ∃ before line statement later value, statements = before ++ (line, statement) :: later ∧
      m.runStatements before storage = m.runStatements before ∧
      (m.runStatements before).failure? = none ∧
      (m.runStatements before).machine.Refuses storage line statement value ∧
      m.runStatements statements storage =
        (m.runStatements before).andThen fun m => m.refused line value := by
  obtain ⟨before, line, statement, later, rfl, hbefore, hfailing⟩ := exists_of_failure h
  have hsame : m.runStatements before storage = m.runStatements before := by
    apply runStatements_of_ne_allocation
    rw [hbefore]
    exact (Option.some_ne_none _).symm
  have hrun := runStatements_of_failure hbefore hfailing later
  rw [hsame] at hbefore hfailing hrun
  obtain ⟨value, hrefuses⟩ := failure?_step_eq_allocation_iff.mp hfailing
  refine ⟨before, line, statement, later, value, rfl, hsame, hbefore, hrefuses, ?_⟩
  rw [hrun, Outcome.andThen_of_success _ hbefore, Outcome.andThen_of_success _ hbefore,
    step_of_refuses hrefuses]

end Machine

namespace Run

/-- What a run leaves behind if it is refused storage for the value of a `push`: what the lines in
front of the push leave, its report, and a failure without a line. -/
def refused (source : String) (sink : Sink) (line : Nat) (value : Int32) : Run :=
  let before := body (cut (line - 1) source) sink
  let depth := before.machine.sequence.length
  ⟨before.machine.sink.written, some .allocation,
    before.events ++ #[.dispatch line (.push value) depth, .released depth, .aborted none]⟩

/-- Dropping the values needs no storage. -/
theorem failure?_ofSource_eq_allocation_iff {source : String} {sink : Sink} :
    (ofSource source sink storage).failure? = some .allocation ↔
      ((Machine.start sink).runSource source storage).failure? = some .allocation := by
  simp only [ofSource, release_eq]
  cases ((Machine.start sink).runSource source storage).failure? with
  | some failure => rfl
  | none =>
      rw [Option.none_or]
      split <;> simp

/-- Lines that end with a refusal leave their run to drop the values and flush the output. -/
theorem ofSource_eq_refused {source : String} {sink : Sink} {line : Nat} {value : Int32}
    (hbefore : (body (cut (line - 1) source) sink).failure? = none)
    (h : (Machine.start sink).runSource source storage =
      (body (cut (line - 1) source) sink).andThen fun m => m.refused line value) :
    ofSource source sink storage = refused source sink line value := by
  simp only [ofSource, release_eq, h, Outcome.andThen_of_success _ hbefore, refused]
  simp [Machine.refused, Machine.failed, Outcome.after, Failure.line?, ← Array.toList_inj]

/-- A run that is not refused storage leaves behind what it leaves in plentiful storage. A run that
is refused storage stops at a line that asks for a `push` for which there is no room: it leaves
behind what the lines in front of it leave, and its diagnostic blames no line. -/
theorem ofSource_in_storage (source : String) (sink : Sink) (storage : Storage) :
    let run := ofSource source sink storage
    (run.failure? ≠ some .allocation → run = ofSource source sink) ∧
    (run.failure? = some .allocation → ∃ line statement value,
      (line, statement) ∈ Statement.numbered source ∧
      (body (cut (line - 1) source) sink).failure? = none ∧
      (body (cut (line - 1) source) sink).machine.Refuses storage line statement value ∧
      run = refused source sink line value ∧
      run.answer = ⟨1, (ofSource (cut (line - 1) source) sink).output.toList,
        "Error: Memory allocation (malloc) failed\n"⟩) := by
  dsimp only
  rw [ne_eq, failure?_ofSource_eq_allocation_iff]
  constructor
  · intro hgranted
    have hbody := Machine.runStatements_of_ne_allocation hgranted
    simp only [ofSource, Machine.runSource, hbody]
  · intro hrefused
    obtain ⟨before, line, statement, later, value, hsource, -, hbefore, hrefuses, hrun⟩ :=
      Machine.exists_refused hrefused
    obtain ⟨-, hcut⟩ := numbered_cut_of_eq_append hsource
    have hbody : body (cut (line - 1) source) sink =
        (Machine.start sink).runStatements before := by
      rw [body, Machine.runSource, hcut]
    rw [← hbody] at hbefore hrefuses hrun
    have heq := ofSource_eq_refused hbefore hrun
    refine ⟨line, statement, value, ?_, hbefore, hrefuses, heq, ?_⟩
    · rw [hsource]
      exact List.mem_append_cons_self
    · rw [heq, answer_of_failure rfl, output_ofSource]
      rfl

example : (ofSource "push 1\npint\npush 2" Sink.unbounded (.bounded 1)).answer =
    ⟨1, [49, 10], "Error: Memory allocation (malloc) failed\n"⟩ := by decide +kernel

end Run

end StackQueue
