import StackQueue.Instruction.Resolve

/-!
# Reading back what events show

Events show numbers in decimal and instructions by their labels. The decimal form of a 32-bit value
is an operand with this value, and a text is the label of at most one instruction, which can be
found from it.
-/

namespace StackQueue

namespace Operand

theorem magnitude?_toDigits (n : Nat) : magnitude? (Nat.toDigits 10 n) = some n := by
  have hdigits : (Nat.toDigits 10 n).all Char.isDigit = true :=
    List.all_eq_true.mpr fun c hc => Nat.isDigit_of_mem_toDigits (by decide) (by decide) hc
  rw [magnitude?, if_pos hdigits, Nat.ofDigitChars_toDigits (by decide) (by decide)]

/-- Digits in front of which there is no sign denote their magnitude. -/
theorem signed_of_magnitude? {digits : List Char} {n : Nat} (hne : digits ≠ [])
    (h : magnitude? digits = some n) : signed magnitude? digits = some (n : Int) := by
  unfold signed
  split
  · exact absurd rfl hne
  · -- A minus sign is no digit.
    simp [magnitude?] at h
  · rw [h]
    rfl

/-- The decimal form of an integer denotes it. -/
theorem integer?_render (n : Int) : integer? (Decimal.render n) = some n := by
  cases n with
  | ofNat n => exact signed_of_magnitude? Nat.toDigits_ne_nil (magnitude?_toDigits n)
  | negSucc n =>
      rw [integer?, Decimal.render, signed, magnitude?_toDigits]
      rfl

/-- The decimal form of a value is an operand with this value. -/
theorem value?_text (value : Int32) : value? (Decimal.text value.toInt) = some value := by
  rw [value?_eq, Decimal.toList_text, integer?_render, Option.bind_some, word?_toInt]

end Operand

namespace Decimal

/-- The natural number that a text denotes. -/
def natural? (text : String) : Option Nat :=
  (Operand.integer? text.toList).bind Int.toNat?

theorem natural?_text (n : Nat) : natural? (text n) = some n := by
  rw [natural?, toList_text, Operand.integer?_render]
  rfl

end Decimal

namespace Instruction

/-- The instructions that need no operand. -/
def plain : List Instruction :=
  Opcode.all.filterMap ofOpcode?

theorem eq_push_or_mem_plain (instruction : Instruction) :
    (∃ value, instruction = push value) ∨ instruction ∈ plain := by
  cases instruction with
  | push value => exact Or.inl ⟨value, rfl⟩
  | arith op => cases op <;> exact Or.inr (by decide)
  | _ => exact Or.inr (by decide)

theorem toList_label_push (value : Int32) :
    (push value).label.toList =
      'P' :: 'u' :: 's' :: 'h' :: '(' :: (Decimal.render value.toInt ++ [')']) := by
  simp [label, Decimal.toList_text]

/-- The text in the brackets of a label of `push`. -/
def argument (text : String) : String :=
  String.ofList (text.toList.drop 5).dropLast

theorem argument_label (value : Int32) :
    argument (push value).label = Decimal.text value.toInt := by
  rw [argument, toList_label_push, Decimal.text]
  simp

/-- The instruction with the given label. -/
def ofLabel? (text : String) : Option Instruction :=
  (plain ++ ((Operand.value? (argument text)).map push).toList).find? fun instruction =>
    instruction.label = text

/-- No other instruction has the label of a `push`. -/
theorem label_ne_of_mem_plain {instruction : Instruction} (h : instruction ∈ plain)
    (value : Int32) : instruction.label ≠ (push value).label := by
  intro hlabel
  have hstart : instruction.label.toList.take 5 = ['P', 'u', 's', 'h', '('] := by
    rw [hlabel, toList_label_push]
    rfl
  revert hstart
  exact (by decide : ∀ instruction ∈ plain,
    instruction.label.toList.take 5 ≠ ['P', 'u', 's', 'h', '(']) instruction h

/-- Different instructions have different labels. -/
theorem label_injective {a b : Instruction} (h : a.label = b.label) : a = b := by
  rcases eq_push_or_mem_plain a with ⟨x, rfl⟩ | ha <;>
    rcases eq_push_or_mem_plain b with ⟨y, rfl⟩ | hb
  · have hvalues :
        Operand.value? (Decimal.text x.toInt) = Operand.value? (Decimal.text y.toInt) := by
      rw [← argument_label, ← argument_label, h]
    rw [Operand.value?_text, Operand.value?_text, Option.some.injEq] at hvalues
    rw [hvalues]
  · exact absurd h.symm (label_ne_of_mem_plain hb x)
  · exact absurd h (label_ne_of_mem_plain ha y)
  · exact (by decide : ∀ a ∈ plain, ∀ b ∈ plain, a.label = b.label → a = b) a ha b hb h

/-- A text denotes an instruction exactly when it is its label. -/
theorem ofLabel?_eq_some_iff {text : String} {instruction : Instruction} :
    ofLabel? text = some instruction ↔ instruction.label = text := by
  constructor
  · intro h
    simpa using List.find?_some h
  · rintro rfl
    have hmem : instruction ∈
        plain ++ ((Operand.value? (argument instruction.label)).map push).toList := by
      rcases eq_push_or_mem_plain instruction with ⟨value, rfl⟩ | h
      · rw [argument_label, Operand.value?_text]
        simp
      · exact List.mem_append_left _ h
    cases hfind : ofLabel? instruction.label with
    | none =>
        have hnone := List.find?_eq_none.mp hfind instruction hmem
        simp at hnone
    | some other =>
        have hlabel : other.label = instruction.label := by simpa using List.find?_some hfind
        rw [label_injective hlabel]

end Instruction

end StackQueue
