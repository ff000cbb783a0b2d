import StackQueue.Failure
import StackQueue.Instruction.Basic
import StackQueue.Sequence.Cursor

/-!
# Carrying out an instruction

An instruction acts on the sequence and prints octets. Every check comes before the first change,
so an instruction that fails leaves the sequence as it was, and so does one that prints. What is
printed is seven-bit text: decimals, or the characters that values stand for. Only a `push` asks
for storage.

## Implementation notes

What an instruction prints does not depend on the output that takes it, so it is a value of its
own here: writing it, and the failure of writing, belong to the machine.
-/

namespace StackQueue

namespace Printed

/-- The octet that ends every printed line. -/
def newline : UInt8 := 10

/-- A value as a decimal on a line of its own. -/
def decimal (value : Int32) : List UInt8 :=
  (Decimal.render value.toInt).map Char.toUInt8 ++ [newline]

/-- Whether a value is the code of a seven-bit character. -/
def isCharacter (value : Int32) : Bool :=
  0 ≤ value.toInt && value.toInt < 128

/-- The octet of a value that is the code of a character. -/
def character (value : Int32) : UInt8 :=
  UInt8.ofNat value.toInt.toNat

/-- The text that values spell: their characters up to the first value that is zero or no
character. -/
def spelled (values : List Int32) : List UInt8 :=
  (values.takeWhile fun value => isCharacter value && value != 0).map character

end Printed

namespace Instruction

open Printed

/-- Carry out an instruction that stands on the given line. The answer is what it prints, or why
it cannot be carried out. -/
def perform (instruction : Instruction) (mode : Mode) (line : Nat) (s : Sequence)
    (storage : Storage := .plentiful) : Except Failure (List UInt8) × Sequence :=
  match instruction with
  | push value =>
      match s.tryPush mode value storage with
      | (false, s) => (.error .allocation, s)
      | (true, s) => (.ok [], s)
  | pall => (.ok (s.toList.flatMap decimal), s)
  | pint =>
      match s.frontValue? with
      | none => (.error (.emptyPint line), s)
      | some value => (.ok (decimal value), s)
  | pop =>
      match s.popFront with
      | (none, s) => (.error (.emptyPop line), s)
      | (some _, s) => (.ok [], s)
  | nop => (.ok [], s)
  | swap =>
      match s.swapFront with
      | (false, s) => (.error (.shortStack line .swap), s)
      | (true, s) => (.ok [], s)
  | arith op =>
      match s.topTwo? with
      | none => (.error (.shortStack line (.arith op)), s)
      | some (front, second) =>
          match op.apply front second with
          | none => (.error (.divisionByZero line), s)
          | some result => (.ok [], (s.collapseFront result).2)
  | pchar =>
      match s.frontValue? with
      | none => (.error (.pcharEmpty line), s)
      | some value =>
          if isCharacter value then
            (.ok [character value, newline], s)
          else
            (.error (.pcharRange line), s)
  | pstr => (.ok (spelled s.toList ++ [newline]), s)
  | rotl => (.ok [], s.rotateLeft)
  | rotr => (.ok [], s.rotateRight)

/-- In plentiful storage every value can be pushed. -/
@[simp] theorem perform_push (mode : Mode) (line : Nat) (s : Sequence) (value : Int32) :
    (push value).perform mode line s = (.ok [], s.push mode value) := by
  rw [perform, Sequence.tryPush_of_hasRoom rfl]

/-- A value for which there is no room is not pushed. -/
theorem perform_push_of_not_hasRoom {s : Sequence} {storage : Storage}
    (h : s.hasRoom storage = false) (mode : Mode) (line : Nat) (value : Int32) :
    (push value).perform mode line s storage = (.error .allocation, s) := by
  rw [perform, Sequence.tryPush_of_not_hasRoom h]

/-- Where there is room, the storage makes no difference. -/
theorem perform_of_hasRoom {s : Sequence} {storage : Storage} (h : s.hasRoom storage = true)
    (instruction : Instruction) (mode : Mode) (line : Nat) :
    instruction.perform mode line s storage = instruction.perform mode line s := by
  cases instruction with
  | push value => rw [perform_push, perform, Sequence.tryPush_of_hasRoom h]
  | pall | pint | pop | nop | swap | arith | pchar | pstr | rotl | rotr => rfl

/-- Only a push asks for storage. -/
theorem perform_of_ne_push {instruction : Instruction} (h : ∀ value, instruction ≠ push value)
    (mode : Mode) (line : Nat) (s : Sequence) (storage : Storage) :
    instruction.perform mode line s storage = instruction.perform mode line s := by
  cases instruction with
  | push value => exact absurd rfl (h value)
  | pall | pint | pop | nop | swap | arith | pchar | pstr | rotl | rotr => rfl

/-- An instruction that cannot be carried out leaves the sequence as it was. -/
theorem perform_of_error {instruction : Instruction} {mode : Mode} {line : Nat} {s : Sequence}
    {storage : Storage} {failure : Failure}
    (h : (instruction.perform mode line s storage).1 = .error failure) :
    (instruction.perform mode line s storage).2 = s := by
  cases instruction with
  | push value =>
      cases hroom : s.hasRoom storage with
      | true =>
          rw [perform, Sequence.tryPush_of_hasRoom hroom] at h
          cases h
      | false => rw [perform_push_of_not_hasRoom hroom]
  | pall | nop | pstr | rotl | rotr => cases h
  | pint =>
      simp only [perform] at h ⊢
      split <;> rfl
  | pchar =>
      simp only [perform] at h ⊢
      split
      · rfl
      · split <;> rfl
  | pop =>
      simp only [perform] at h ⊢
      split
      · next s' hpop => simpa [hpop] using Sequence.popFront_of_eq_none (s := s) (by simp [hpop])
      · next value s' hpop => simp [hpop] at h
  | swap =>
      simp only [perform] at h ⊢
      split
      · next s' hswap =>
          simpa [hswap] using Sequence.swapFront_of_eq_false (s := s) (by simp [hswap])
      · next s' hswap => simp [hswap] at h
  | arith op =>
      simp only [perform] at h ⊢
      split
      · rfl
      · next front second htwo =>
          split
          · rfl
          · next result happly => simp [htwo, happly] at h

/-- An instruction that prints leaves the sequence as it was. -/
theorem perform_of_printed {instruction : Instruction} {mode : Mode} {line : Nat} {s : Sequence}
    {storage : Storage} {octet : UInt8} {others : List UInt8}
    (h : (instruction.perform mode line s storage).1 = .ok (octet :: others)) :
    (instruction.perform mode line s storage).2 = s := by
  cases instruction with
  | pall | pstr => rfl
  | nop | rotl | rotr => cases h
  | push =>
      simp only [perform] at h ⊢
      split <;> simp_all
  | pint =>
      simp only [perform] at h ⊢
      split <;> rfl
  | pchar =>
      simp only [perform] at h ⊢
      split
      · rfl
      · split <;> rfl
  | pop =>
      simp only [perform] at h ⊢
      split <;> simp_all
  | swap =>
      simp only [perform] at h ⊢
      split <;> simp_all
  | arith op =>
      simp only [perform] at h ⊢
      split
      · rfl
      · next front second htwo =>
          split
          · rfl
          · next result happly => simp [htwo, happly] at h

end Instruction

end StackQueue
