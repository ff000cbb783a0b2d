import Mathlib.Data.List.Basic
import StackQueue.Proofs.Reference.Printing

/-!
# What instructions print

All that instructions print is seven-bit text. Four of them print and the others never do. What is
printed ends with a newline, unless all values are to be shown and there is none.
-/

namespace StackQueue

namespace Printed

theorem toNat_toUInt8 {c : Char} (h : c.toNat < 128) : c.toUInt8.toNat = c.toNat :=
  Nat.mod_eq_of_lt (Nat.lt_trans h (by decide))

theorem toUInt8_lt {c : Char} (h : c.toNat < 128) : c.toUInt8 < 0x80 := by
  rw [UInt8.lt_iff_toNat_lt, toNat_toUInt8 h]
  exact h

theorem newline_lt : newline < 0x80 := by decide

theorem decimal_lt {value : Int32} : ∀ octet ∈ decimal value, octet < 0x80 := by
  intro octet h
  rcases List.mem_append.mp h with h | h
  · obtain ⟨c, hc, rfl⟩ := List.mem_map.mp h
    exact toUInt8_lt (Reference.lt_of_mem_render hc)
  · rw [List.mem_singleton.mp h]
    exact newline_lt

theorem character_lt {value : Int32} (h : isCharacter value = true) : character value < 0x80 := by
  simp only [isCharacter, Bool.and_eq_true, decide_eq_true_eq] at h
  rw [UInt8.lt_iff_toNat_lt, character, UInt8.toNat_ofNat', Nat.mod_eq_of_lt (by omega)]
  change value.toInt.toNat < 128
  omega

theorem spelled_lt {values : List Int32} : ∀ octet ∈ spelled values, octet < 0x80 := by
  intro octet h
  obtain ⟨value, hvalue, rfl⟩ := List.mem_map.mp h
  have htaken := List.all_eq_true.mp List.all_takeWhile value hvalue
  exact character_lt (Bool.and_eq_true_iff.mp htaken).1

theorem getLast?_decimal (value : Int32) : (decimal value).getLast? = some newline :=
  List.getLast?_concat

/-- Decimals of values end with a newline, if there is a value. -/
theorem getLast?_flatMap_decimal {values : List Int32} (h : values ≠ []) :
    (values.flatMap decimal).getLast? = some newline := by
  obtain ⟨others, last, rfl⟩ := (List.eq_nil_or_concat' values).resolve_left h
  rw [List.flatMap_append, List.flatMap_singleton, List.getLast?_append, getLast?_decimal]
  rfl

end Printed

namespace Instruction

open Printed

/-- The instructions that print. -/
def prints : Instruction → Bool
  | pall | pint | pchar | pstr => true
  | push _ | pop | nop | swap | arith _ | rotl | rotr => false

variable {instruction : Instruction} {mode : Mode} {line : Nat} {s : Sequence}
  {octets : List UInt8}

/-- Only an instruction that prints writes anything. -/
theorem eq_nil_of_perform (h : (instruction.perform mode line s).1 = .ok octets)
    (hprints : instruction.prints = false) : octets = [] := by
  cases instruction with
  | nop | rotl | rotr =>
      cases h
      rfl
  | push | pop | swap =>
      simp only [perform] at h
      split at h <;> cases h
      rfl
  | arith op =>
      simp only [perform] at h
      split at h
      · cases h
      · split at h <;> cases h
        rfl
  | pall | pint | pchar | pstr => cases hprints

/-- Whatever an instruction prints is seven-bit text. -/
theorem lt_of_perform (h : (instruction.perform mode line s).1 = .ok octets) :
    ∀ octet ∈ octets, octet < 0x80 := by
  cases hprints : instruction.prints with
  | false =>
      rw [eq_nil_of_perform h hprints]
      exact List.forall_mem_nil _
  | true =>
      cases instruction with
      | push | pop | nop | swap | arith | rotl | rotr => cases hprints
      | pall =>
          cases h
          intro octet hoctet
          obtain ⟨value, -, hvalue⟩ := List.mem_flatMap.mp hoctet
          exact decimal_lt octet hvalue
      | pint =>
          simp only [perform] at h
          split at h <;> cases h
          exact decimal_lt
      | pchar =>
          simp only [perform] at h
          split at h
          · cases h
          · split at h
            · next hcharacter =>
                cases h
                exact List.forall_mem_cons.mpr
                  ⟨character_lt hcharacter, List.forall_mem_singleton.mpr newline_lt⟩
            · cases h
      | pstr =>
          cases h
          exact List.forall_mem_append.mpr
            ⟨spelled_lt, List.forall_mem_singleton.mpr newline_lt⟩

/-- An instruction that prints ends a line, unless it is to show all values and there is none. -/
theorem ended_of_perform (h : (instruction.perform mode line s).1 = .ok octets)
    (hprints : instruction.prints = true) :
    octets = [] ∧ instruction = .pall ∧ s.toList = [] ∨
      octets.getLast? = some newline ∧ ¬ (instruction = .pall ∧ s.toList = []) := by
  cases instruction with
  | push | pop | nop | swap | arith | rotl | rotr => cases hprints
  | pall =>
      cases h
      by_cases hvalues : s.toList = []
      · rw [hvalues]
        exact Or.inl ⟨rfl, rfl, rfl⟩
      · exact Or.inr ⟨getLast?_flatMap_decimal hvalues, fun hpall => hvalues hpall.2⟩
  | pint =>
      simp only [perform] at h
      split at h <;> cases h
      exact Or.inr ⟨getLast?_decimal _, by simp⟩
  | pchar =>
      simp only [perform] at h
      split at h
      · cases h
      · split at h <;> cases h
        exact Or.inr ⟨rfl, by simp⟩
  | pstr =>
      cases h
      exact Or.inr ⟨List.getLast?_concat, by simp⟩

end Instruction

end StackQueue
