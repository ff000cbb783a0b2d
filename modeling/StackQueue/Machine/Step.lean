import StackQueue.Instruction.Perform
import StackQueue.Instruction.Resolve
import StackQueue.Machine.Outcome
import StackQueue.Statement

/-!
# Steps of a machine

From a single instruction to the text of a whole program. A program runs line by line; a line is
resolved when it is reached, so the lines before a bad one are carried out. The statements of a
program can be run in two parts, the second from where the first ended. The storage on which a
step depends is an argument, and plentiful where none is given.
-/

namespace StackQueue.Machine

/-- Carry out an instruction that stands on the given line and write what it prints. -/
def execute (m : Machine) (line : Nat) (instruction : Instruction)
    (storage : Storage := .plentiful) : Outcome :=
  match m with
  | ⟨mode, s, sink⟩ =>
      match instruction.perform mode line s storage with
      | (.error failure, s) => failed ⟨mode, s, sink⟩ failure
      | (.ok printed, s) =>
          match sink.write printed with
          | (true, sink) => done ⟨mode, s, sink⟩
          | (false, sink) => failed ⟨mode, s, sink⟩ .output

/-- Resolve the words of a line and carry out what they ask for. A comment is only reported; an
instruction is reported before it is carried out. -/
def dispatch (m : Machine) (line : Nat) (word : String) (operand? : Option String)
    (storage : Storage := .plentiful) : Outcome :=
  match Instruction.resolve word operand? line with
  | .error failure => m.failed failure
  | .ok none => m.done.after (.comment line)
  | .ok (some instruction) =>
      let depth := m.sequence.length
      (m.execute line instruction storage).after (.dispatch line instruction depth)

/-- Put a mode in force, and report it if another one was. -/
def setMode (m : Machine) (mode : Mode) : Outcome :=
  if m.mode = mode then
    m.done
  else
    ({ m with mode := mode } : Machine).done.after (.modeChanged mode)

/-- Carry out the statement of the given line. -/
def step (m : Machine) (line : Nat) (statement : Statement)
    (storage : Storage := .plentiful) : Outcome :=
  match statement with
  | .blank => m.done
  | .mode selected => m.setMode selected
  | .op word operand? => m.dispatch line word operand? storage

/-- Carry out numbered statements up to the first failure. -/
def runStatements (m : Machine) (statements : List (Nat × Statement))
    (storage : Storage := .plentiful) : Outcome :=
  statements.foldl
    (fun outcome statement => outcome.andThen fun m => m.step statement.1 statement.2 storage)
    m.done

/-- Carry out the text of a program. -/
def runSource (m : Machine) (source : String) (storage : Storage := .plentiful) : Outcome :=
  m.runStatements (Statement.numbered source) storage

/-- Drop all values, report how many there were, and flush the output. -/
def release (m : Machine) : Outcome :=
  let (count, s) := m.sequence.releaseAll
  let m : Machine := { m with sequence := s }
  let outcome := if m.sink.failsFlush then m.failed .output else m.done
  outcome.after (.released count)

variable {storage : Storage}

/-- No statement, no step. -/
@[simp] theorem runStatements_nil (m : Machine) : m.runStatements [] storage = m.done := rfl

/-- What has been done stays in front of the statements still to come. -/
theorem foldl_andThen (outcome : Outcome) (statements : List (Nat × Statement)) :
    statements.foldl
        (fun outcome statement => outcome.andThen fun m => m.step statement.1 statement.2 storage)
        outcome =
      outcome.andThen fun m => m.runStatements statements storage := by
  induction statements generalizing outcome with
  | nil => exact (Outcome.andThen_done outcome).symm
  | cons statement statements ih =>
      have tail (m : Machine) : m.runStatements (statement :: statements) storage =
          (m.step statement.1 statement.2 storage).andThen fun m =>
            m.runStatements statements storage := by
        rw [runStatements, List.foldl_cons, Outcome.done_andThen]
        exact ih _
      simp only [List.foldl_cons, tail]
      rw [ih, Outcome.andThen_assoc]

/-- The first statement is carried out first. -/
theorem runStatements_cons (m : Machine) (line : Nat) (statement : Statement)
    (statements : List (Nat × Statement)) :
    m.runStatements ((line, statement) :: statements) storage =
      (m.step line statement storage).andThen fun m => m.runStatements statements storage := by
  rw [runStatements, List.foldl_cons, Outcome.done_andThen]
  exact foldl_andThen _ _

/-- A list of statements can be run in two parts. -/
theorem runStatements_append (m : Machine) (first second : List (Nat × Statement)) :
    m.runStatements (first ++ second) storage =
      (m.runStatements first storage).andThen fun m => m.runStatements second storage := by
  rw [runStatements, List.foldl_append]
  exact foldl_andThen _ _

end StackQueue.Machine
