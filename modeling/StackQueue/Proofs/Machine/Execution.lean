import StackQueue.Machine.Step
import StackQueue.Proofs.Output

/-!
# How an instruction ends

An instruction on a machine ends in one of three ways, each of which determines the machine
afterwards. It cannot be carried out, it is carried out and the output takes all that it prints, or
the output takes only a part.
-/

namespace StackQueue

namespace Instruction

/-- Carrying out an instruction never blames the output. -/
theorem perform_ne_output (instruction : Instruction) (mode : Mode) (line : Nat) (s : Sequence)
    (storage : Storage) : (instruction.perform mode line s storage).1 ≠ .error .output := by
  intro h
  cases instruction with
  | pall | nop | pstr | rotl | rotr => cases h
  | push | pint | pop | swap =>
      simp only [perform] at h
      split at h <;> cases h
  | arith op =>
      simp only [perform] at h
      split at h
      · cases h
      · split at h <;> cases h
  | pchar =>
      simp only [perform] at h
      split at h
      · cases h
      · split at h <;> cases h

end Instruction

namespace Machine

variable {m : Machine} {line : Nat} {instruction : Instruction} {storage : Storage}

/-- An instruction that cannot be carried out changes nothing. -/
theorem execute_of_error {failure : Failure}
    (h : (instruction.perform m.mode line m.sequence storage).1 = .error failure) :
    m.execute line instruction storage = m.failed failure := by
  have hsame := Instruction.perform_of_error h
  have hperform : instruction.perform m.mode line m.sequence storage =
      (.error failure, m.sequence) := Prod.ext h hsame
  simp only [execute, hperform]

/-- Where there is room, the output takes all that an instruction prints. -/
theorem execute_of_fits {printed : List UInt8}
    (h : (instruction.perform m.mode line m.sequence storage).1 = .ok printed)
    (hfits : m.sink.fits printed = true) :
    m.execute line instruction storage =
      done ⟨m.mode, (instruction.perform m.mode line m.sequence storage).2,
        { m.sink with written := m.sink.written ++ printed }⟩ := by
  have hperform : instruction.perform m.mode line m.sequence storage =
      (.ok printed, (instruction.perform m.mode line m.sequence storage).2) := Prod.ext h rfl
  unfold execute
  simp only
  rw [hperform]
  simp only [Sink.write_eq_of_fits hfits]

/-- Where there is not room for all that an instruction prints, only the output changes. -/
theorem execute_of_not_fits {printed : List UInt8}
    (h : (instruction.perform m.mode line m.sequence storage).1 = .ok printed)
    (hfits : m.sink.fits printed = false) :
    m.execute line instruction storage =
      failed { m with sink := (m.sink.write printed).2 } .output := by
  -- Nothing always fits, so this instruction prints, and such an instruction only reads.
  have hsame : (instruction.perform m.mode line m.sequence storage).2 = m.sequence := by
    cases printed with
    | nil =>
        have hnil := congrArg Prod.fst (Sink.write_nil m.sink)
        rw [Sink.write, hfits] at hnil
        cases hnil
    | cons octet others => exact Instruction.perform_of_printed h
  have hperform : instruction.perform m.mode line m.sequence storage = (.ok printed, m.sequence) :=
    Prod.ext h hsame
  have hwrite : m.sink.write printed = (false, (m.sink.write printed).2) := Prod.ext hfits rfl
  unfold execute
  simp only [hperform]
  rw [hwrite]

/-- The output has no influence on the sequence. -/
theorem sequence_execute (m : Machine) (line : Nat) (instruction : Instruction)
    (storage : Storage) :
    (m.execute line instruction storage).machine.sequence =
      (instruction.perform m.mode line m.sequence storage).2 := by
  obtain ⟨mode, s, sink⟩ := m
  simp only [execute]
  split
  · next failure t hperform => rw [hperform, failed]
  · next printed t hperform =>
      rw [hperform]
      split <;> rfl

/-- In plentiful storage a `push` succeeds in front of every output. -/
theorem execute_push (m : Machine) (line : Nat) (value : Int32) :
    m.execute line (.push value) =
      done { m with sequence := m.sequence.push m.mode value } := by
  obtain ⟨mode, s, sink⟩ := m
  simp only [execute, Instruction.perform_push, Sink.write_nil]

/-- An output that takes everything takes all values, one decimal a line. -/
theorem execute_pall (hwide : m.sink.limit = none) (line : Nat) :
    m.execute line .pall = done { m with sink :=
      { m.sink with written := m.sink.written ++ m.sequence.toList.flatMap Printed.decimal } } := by
  have hfits : m.sink.fits (m.sequence.toList.flatMap Printed.decimal) = true := by
    rw [Sink.fits, hwide]
  exact execute_of_fits rfl hfits

end Machine

end StackQueue
