import StackQueue.Instruction.Perform
import StackQueue.Proofs.Arithmetic
import StackQueue.Proofs.Reference.Program

/-!
# Printed octets and computed values

What an instruction prints and computes is what the reference says. Decimals are the UTF-8 of the
decimal notation of an integer, characters and spelled texts agree, and 32-bit arithmetic is
wrapped arithmetic on integers.
-/

namespace StackQueue.Reference

open Printed

/-- A seven-bit character is encoded as the octet of its code. -/
theorem utf8EncodeChar_of_lt {c : Char} (h : c.toNat < 128) :
    String.utf8EncodeChar c = [c.toUInt8] := by
  have hval : c.val.toNat ≤ 127 := Nat.le_of_lt_succ h
  simp only [String.utf8EncodeChar, hval, if_true]
  rfl

theorem encode_of_forall_lt {text : List Char} (h : ∀ c ∈ text, c.toNat < 128) :
    text.flatMap String.utf8EncodeChar = text.map Char.toUInt8 := by
  rw [List.map_eq_flatMap, List.flatMap_def, List.flatMap_def]
  apply congrArg List.flatten
  apply List.map_congr_left
  intro c hc
  exact utf8EncodeChar_of_lt (h c hc)

theorem lt_of_mem_render {n : Int} {c : Char} (h : c ∈ Decimal.render n) : c.toNat < 128 := by
  rcases Decimal.isDigit_or_minus_of_mem_render h with hdigit | rfl
  · simp only [Char.isDigit, Bool.and_eq_true, decide_eq_true_eq] at hdigit
    exact Nat.lt_of_le_of_lt hdigit.2 (by decide)
  · decide

/-- A printed decimal is the decimal notation of the value and a newline. -/
theorem decimal_eq (value : Int32) : decimal value = decimalLine value := by
  rw [decimal, decimalLine, octets, String.toList_append, List.flatMap_append,
    Decimal.toList_toString, encode_of_forall_lt fun c hc => lt_of_mem_render hc]
  rfl

/-- The octet of a value, if there is one, is its character. -/
theorem character?_eq (value : Int32) :
    character? value = if isCharacter value then some (character value) else none := by
  have hiff : (0 ≤ value.toInt ∧ value.toInt ≤ 127) ↔ isCharacter value = true := by
    simp only [isCharacter, Bool.and_eq_true, decide_eq_true_eq]
    omega
  simp only [character?, hiff, character]

/-- Among characters only zero has the octet zero. -/
theorem character_eq_zero_iff {value : Int32} (h : isCharacter value = true) :
    character value = 0 ↔ value = 0 := by
  simp only [isCharacter, Bool.and_eq_true, decide_eq_true_eq] at h
  constructor
  · intro hzero
    have hoctet := congrArg UInt8.toNat hzero
    simp only [character, UInt8.toNat_ofNat'] at hoctet
    apply Int32.toInt_inj.mp
    have htoNat : value.toInt.toNat = 0 := by
      rw [Nat.mod_eq_of_lt (by omega)] at hoctet
      exact hoctet
    change value.toInt = 0
    omega
  · rintro rfl
    rfl

/-- Spelling takes values one after the other up to the first that ends the text. -/
theorem spelled_eq (values : List Int32) : spelled values = spell values := by
  induction values with
  | nil => rfl
  | cons value values ih =>
      rw [spell, character?_eq]
      cases hcharacter : isCharacter value with
      | false => simp [spelled, hcharacter]
      | true =>
          by_cases hzero : value = 0
          · subst hzero
            rfl
          · have hoctet : character value ≠ 0 :=
              fun h => hzero ((character_eq_zero_iff hcharacter).mp h)
            simp [spelled, hcharacter, hzero, hoctet, ← ih]

/-- Arithmetic on 32-bit words is arithmetic on integers, wrapped to 32 bits. -/
theorem apply_eq (op : Operator) (front second : Int32) :
    op.apply front second =
      if (op = .div ∨ op = .mod) ∧ front = 0 then none
      else some (Int32.ofInt (result op front.toInt second.toInt)) := by
  cases op with
  | add | sub | mul => simp [Operator.apply, result]
  | div => simp [Operator.apply, result, Operator.ofInt_tdiv_toInt]
  | mod => simp [Operator.apply, result, Operator.ofInt_tmod_toInt]

end StackQueue.Reference
