import Mathlib.Algebra.Ring.Int.Defs
import Mathlib.Algebra.Ring.Nat
import Mathlib.Data.List.Induction
import StackQueue.Proofs.Instruction.Labels

/-!
# The integers that operands denote

Digits spell a number, and an operand denotes the number that it spells, or behind a minus sign the
negated one. A `push` takes exactly the operands whose integer fits in 32 bits, however long they
are. Reading the digits into a word of 64 bits first takes the same operands and gives the same
values.

## Implementation notes

`Spells` and `Denotes` say what is meant and not how it is found: digits are compared with the ten
characters that are written for them.
-/

namespace StackQueue

namespace Operand

/-- The ten digits, each at the place of its value. -/
def decimalDigits : List Char :=
  ['0', '1', '2', '3', '4', '5', '6', '7', '8', '9']

/-- Digits spell a number. No digits spell zero, and a digit behind others adds to ten times the
number that these spell. -/
inductive Spells : List Char → Nat → Prop
  | nil : Spells [] 0
  | concat {digits : List Char} {n value : Nat} {c : Char} (h : Spells digits n)
      (hc : decimalDigits[value]? = some c) : Spells (digits ++ [c]) (10 * n + value)

/-- An operand denotes an integer. Only behind a minus sign may the digits be missing. -/
inductive Denotes : List Char → Int → Prop
  | unsigned {digits : List Char} {n : Nat} (hne : digits ≠ []) (h : Spells digits n) :
      Denotes digits n
  | negated {digits : List Char} {n : Nat} (h : Spells digits n) : Denotes ('-' :: digits) (-n)

variable {digits text : List Char} {n : Nat} {c : Char}

/-- A character is a digit of some value exactly where it stands for this value among the ten. -/
theorem decimalDigits_eq_some_iff {value : Nat} :
    decimalDigits[value]? = some c ↔ c.isDigit = true ∧ c.toNat - '0'.toNat = value := by
  have hdigits : ∀ value < 10, decimalDigits[value]? = some (Char.ofNat (48 + value)) := by decide
  have hvalues : ∀ value < 10, (Char.ofNat (48 + value)).isDigit = true ∧
      (Char.ofNat (48 + value)).toNat - '0'.toNat = value := by decide
  constructor
  · intro h
    obtain ⟨hlt, -⟩ := List.getElem?_eq_some_iff.mp h
    obtain rfl := Option.some.inj ((hdigits value hlt).symm.trans h)
    exact hvalues value hlt
  · rintro ⟨hdigit, rfl⟩
    have hzero : '0'.toNat = 48 := rfl
    obtain ⟨hlow, hhigh⟩ : 48 ≤ c.toNat ∧ c.toNat ≤ 57 := by
      simpa [Char.isDigit, UInt32.le_iff_toNat_le] using hdigit
    rw [hzero, hdigits _ (by omega), Nat.add_sub_cancel' hlow, Char.ofNat_toNat]

theorem magnitude?_eq_some_iff :
    magnitude? digits = some n ↔
      digits.all Char.isDigit = true ∧ Nat.ofDigitChars 10 digits 0 = n := by
  simp [magnitude?]

/-- Digits spell their magnitude and nothing else. -/
theorem spells_iff : Spells digits n ↔ magnitude? digits = some n := by
  rw [magnitude?_eq_some_iff]
  constructor
  · intro h
    induction h with
    | nil => exact ⟨rfl, rfl⟩
    | concat _ hc ih =>
        obtain ⟨hall, hvalue⟩ := ih
        obtain ⟨hdigit, hcvalue⟩ := decimalDigits_eq_some_iff.mp hc
        refine ⟨by simp [List.all_append, hall, hdigit], ?_⟩
        rw [Nat.ofDigitChars_append, hvalue, Nat.ofDigitChars_cons, hcvalue]
        rfl
  · rintro ⟨hall, rfl⟩
    induction digits using List.reverseRecOn with
    | nil => exact .nil
    | append_singleton digits c ih =>
        rw [List.all_append, Bool.and_eq_true, List.all_cons, Bool.and_eq_true] at hall
        obtain ⟨hall, hdigit, -⟩ := hall
        rw [Nat.ofDigitChars_append, Nat.ofDigitChars_cons]
        exact .concat (ih hall) (decimalDigits_eq_some_iff.mpr ⟨hdigit, rfl⟩)

/-- An operand denotes the integer that is read off it and nothing else. -/
theorem denotes_iff {n : Int} : Denotes text n ↔ integer? text = some n := by
  constructor
  · intro h
    cases h with
    | unsigned hne h => exact signed_of_magnitude? hne (spells_iff.mp h)
    | negated h =>
        rw [integer?, signed, spells_iff.mp h]
        rfl
  · intro h
    unfold integer? signed at h
    split at h
    · cases h
    · obtain ⟨magnitude, hmagnitude, rfl⟩ := Option.map_eq_some_iff.mp h
      exact .negated (spells_iff.mpr hmagnitude)
    · next hne _ =>
        obtain ⟨magnitude, hmagnitude, rfl⟩ := Option.map_eq_some_iff.mp h
        exact .unsigned hne (spells_iff.mpr hmagnitude)

theorem Denotes.unique {n n' : Int} (h : Denotes text n) (h' : Denotes text n') : n = n' :=
  Option.some.inj ((denotes_iff.mp h).symm.trans (denotes_iff.mp h'))

/-- The integers of 32 bits. -/
def Fits (n : Int) : Prop :=
  -2 ^ 31 ≤ n ∧ n ≤ 2 ^ 31 - 1

theorem word?_eq_some_iff {n : Int} {value : Int32} : word? n = some value ↔ value.toInt = n := by
  constructor
  · exact toInt_of_word?_eq_some
  · rintro rfl
    exact word?_toInt value

theorem exists_word?_iff {n : Int} : (∃ value, word? n = some value) ↔ Fits n := by
  have hmin : Int32.minValue.toInt = -2 ^ 31 := by decide
  have hmax : Int32.maxValue.toInt = 2 ^ 31 - 1 := by decide
  rw [word?, hmin, hmax, Fits]
  split
  · next h => exact iff_of_true ⟨_, rfl⟩ h
  · next h => exact iff_of_false (by simp) h

/-- An operand has the value that it denotes. -/
theorem value?_eq_some_iff {operand : String} {value : Int32} :
    value? operand = some value ↔ Denotes operand.toList value.toInt := by
  rw [value?_eq, denotes_iff, Option.bind_eq_some_iff]
  simp only [word?_eq_some_iff]
  constructor
  · rintro ⟨n, hn, rfl⟩
    exact hn
  · intro h
    exact ⟨_, h, rfl⟩

/-- An operand has a value if the integer that it denotes fits. -/
theorem exists_value?_iff {operand : String} :
    (∃ value, value? operand = some value) ↔ ∃ n, Denotes operand.toList n ∧ Fits n := by
  simp only [value?_eq, Option.bind_eq_some_iff, denotes_iff, ← exists_word?_iff]
  constructor
  · rintro ⟨value, n, hn, hvalue⟩
    exact ⟨n, hn, value, hvalue⟩
  · rintro ⟨n, hn, value, hvalue⟩
    exact ⟨value, n, hn, hvalue⟩

/-! ### Leading zeros -/

/-- A text with zeros put in front of its digits, behind the minus sign if there is one. -/
def padded (zeros : Nat) : List Char → List Char
  | '-' :: digits => '-' :: (List.replicate zeros '0' ++ digits)
  | digits => List.replicate zeros '0' ++ digits

theorem Spells.zeros_append (h : Spells digits n) (zeros : Nat) :
    Spells (List.replicate zeros '0' ++ digits) n := by
  induction h with
  | nil =>
      rw [List.append_nil]
      induction zeros with
      | zero => exact .nil
      | succ zeros ih =>
          have hzero : decimalDigits[0]? = some '0' := rfl
          rw [List.replicate_succ']
          simpa using ih.concat hzero
  | concat _ hc ih =>
      rw [← List.append_assoc]
      exact .concat ih hc

/-- Leading zeros do not change the integer that a text denotes. -/
theorem Denotes.padded {n : Int} (h : Denotes text n) (zeros : Nat) :
    Denotes (padded zeros text) n := by
  cases h with
  | unsigned hne h =>
      unfold Operand.padded
      split
      · -- A minus sign is no digit.
        simp [spells_iff, magnitude?] at h
      · exact .unsigned (by simp [hne]) (h.zeros_append zeros)
  | negated h => exact .negated (h.zeros_append zeros)

/-! ### Reading in 64-bit words -/

/-- The 64-bit word with the given value, if there is one. -/
def wideWord? (n : Int) : Option Int64 :=
  if Int64.minValue.toInt ≤ n ∧ n ≤ Int64.maxValue.toInt then some (Int64.ofInt n) else none

/-- Put a digit behind those that were read, unless the product or the sum overflows. -/
def readDigit? (word : Int64) (c : Char) : Option Int64 :=
  (wideWord? (word.toInt * 10)).bind fun word =>
    wideWord? (word.toInt + (c.toNat - '0'.toNat : Nat))

/-- The sign of an operand, and the text behind it. -/
def splitSign : List Char → Int64 × List Char
  | '-' :: digits => (-1, digits)
  | text => (1, text)

/-- The number that digits spell, read into a word. Only behind a minus sign may they be missing. -/
def wideMagnitude? (sign : Int64) (digits : List Char) : Option Int64 :=
  if digits.all Char.isDigit then
    match digits with
    | [] => if sign < 0 then some 0 else none
    | digits => digits.foldlM readDigit? 0
  else
    none

/-- The value of an operand whose digits are read into a word of 64 bits and multiplied by the
sign there. -/
def wideValue? (operand : String) : Option Int32 :=
  let (sign, digits) := splitSign operand.toList
  (wideMagnitude? sign digits).bind fun magnitude => word? (sign * magnitude).toInt

theorem wideWord?_eq_some_iff {n : Int} {word : Int64} :
    wideWord? n = some word ↔ word.toInt = n := by
  unfold wideWord?
  constructor
  · intro h
    split at h
    · next hn =>
        cases h
        exact Int64.toInt_ofInt_of_le hn.1 (Int.lt_add_one_of_le hn.2)
    · cases h
  · rintro rfl
    rw [if_pos ⟨Int64.le_toInt word, Int64.toInt_le word⟩, Int64.ofInt_toInt]

theorem wideWord?_eq_none_iff {n : Nat} : wideWord? n = none ↔ 2 ^ 63 ≤ n := by
  have hmin : Int64.minValue.toInt = -2 ^ 63 := by decide
  have hmax : Int64.maxValue.toInt = 2 ^ 63 - 1 := by decide
  rw [wideWord?, hmin, hmax]
  split
  · next h => exact iff_of_false (by simp) (by omega)
  · next h => exact iff_of_true rfl (by omega)

/-- A digit is put behind others as it is in a number without bounds, if there is room for it. -/
theorem readDigit?_eq {word : Int64} (hword : word.toInt = n) (c : Char) :
    readDigit? word c = wideWord? ((10 * n + (c.toNat - '0'.toNat) : Nat) : Int) := by
  have hproduct : word.toInt * 10 = ((10 * n : Nat) : Int) := by rw [hword]; omega
  rw [readDigit?, hproduct]
  cases h : wideWord? ((10 * n : Nat) : Int) with
  | none =>
      rw [wideWord?_eq_none_iff] at h
      exact (wideWord?_eq_none_iff.mpr (by omega)).symm
  | some product =>
      rw [Option.bind_some, wideWord?_eq_some_iff.mp h, Int.natCast_add]

/-- A number does not become less by digits put behind it. -/
theorem le_ofDigitChars (digits : List Char) (n : Nat) : n ≤ Nat.ofDigitChars 10 digits n := by
  rw [Nat.ofDigitChars_eq_ofDigitChars_zero]
  have hpos : 0 < 10 ^ digits.length := Nat.pow_pos (by decide)
  exact Nat.le_trans (Nat.le_mul_of_pos_left n hpos) (Nat.le_add_right _ _)

/-- Digits are read as they are in a number without bounds, if there is room for the result. -/
theorem foldlM_readDigit? {word : Int64} (hword : word.toInt = n) (digits : List Char) :
    digits.foldlM readDigit? word = wideWord? (Nat.ofDigitChars 10 digits n) := by
  induction digits generalizing word n with
  | nil => exact (wideWord?_eq_some_iff.mpr hword).symm
  | cons c digits ih =>
      rw [List.foldlM_cons, readDigit?_eq hword, Nat.ofDigitChars_cons]
      cases h : wideWord? ((10 * n + (c.toNat - '0'.toNat) : Nat) : Int) with
      | none =>
          -- What has overflowed once stays too large.
          rw [wideWord?_eq_none_iff] at h
          exact (wideWord?_eq_none_iff.mpr (Nat.le_trans h (le_ofDigitChars digits _))).symm
      | some word => exact ih (wideWord?_eq_some_iff.mp h)

theorem splitSign_of_ne (hc : c ≠ '-') (text : List Char) :
    splitSign (c :: text) = (1, c :: text) := by
  unfold splitSign
  split
  · next heq => exact absurd (List.cons.inj heq).1 hc
  · rfl

theorem signed_of_ne (magnitude? : List Char → Option Nat) (hc : c ≠ '-') (text : List Char) :
    signed magnitude? (c :: text) = (magnitude? (c :: text)).map fun (n : Nat) => (n : Int) := by
  unfold signed
  split
  · next heq => cases heq
  · next heq => exact absurd (List.cons.inj heq).1 hc
  · rfl

theorem wideMagnitude?_eq {sign : Int64} (h : digits = [] → sign < 0) :
    wideMagnitude? sign digits = (magnitude? digits).bind fun (n : Nat) => wideWord? n := by
  unfold wideMagnitude? magnitude?
  split
  · cases digits with
    | nil => exact if_pos (h rfl)
    | cons c digits => exact foldlM_readDigit? rfl (c :: digits)
  · rfl

/-- What is read is not negative. -/
theorem exists_natCast_of_wideMagnitude? {sign word : Int64}
    (h : wideMagnitude? sign digits = some word) : ∃ n : Nat, word.toInt = n := by
  unfold wideMagnitude? at h
  split at h
  · split at h
    · split at h
      · cases h
        exact ⟨0, rfl⟩
      · cases h
    · rw [foldlM_readDigit? rfl, wideWord?_eq_some_iff] at h
      exact ⟨_, h⟩
  · cases h

theorem natAbs_splitSign (text : List Char) : (splitSign text).1.toInt.natAbs = 1 := by
  unfold splitSign
  split <;> rfl

/-- The product of a sign and a magnitude never overflows. -/
theorem toInt_sign_mul {sign word : Int64} (hsign : sign.toInt.natAbs = 1)
    (hword : word.toInt = n) : (sign * word).toInt = sign.toInt * word.toInt := by
  have hmax : Int64.maxValue.toInt = 2 ^ 63 - 1 := by decide
  have hle := Int64.toInt_le word
  have hcases : sign.toInt = 1 ∨ sign.toInt = -1 := by omega
  rw [Int64.toInt_mul]
  rcases hcases with h | h
  · rw [h]
    exact Int.bmod_eq_of_le (by omega) (by omega)
  · rw [h]
    exact Int.bmod_eq_of_le (by omega) (by omega)

/-- A sign and digits have the value that they have in numbers without bounds. -/
theorem bind_wideMagnitude? (digits : List Char) {sign : Int64} (hsign : sign.toInt.natAbs = 1)
    (h : digits = [] → sign < 0) :
    ((wideMagnitude? sign digits).bind fun magnitude => word? (sign * magnitude).toInt) =
      (magnitude? digits).bind fun n => word? (sign.toInt * n) := by
  rw [wideMagnitude?_eq h]
  cases magnitude? digits with
  | none => rfl
  | some n =>
      rw [Option.bind_some, Option.bind_some]
      cases hword : wideWord? (n : Int) with
      | none =>
          have hlarge : tooLarge ≤ (sign.toInt * n).natAbs := by
            rw [Int.natAbs_mul, hsign, Nat.one_mul, Int.natAbs_natCast]
            exact Nat.le_trans (by decide) (wideWord?_eq_none_iff.mp hword)
          exact (word?_eq_none hlarge).symm
      | some word =>
          have heq := wideWord?_eq_some_iff.mp hword
          rw [Option.bind_some, toInt_sign_mul hsign heq, heq]

/-- A word of 64 bits is wide enough to read the value of any operand. -/
theorem wideValue?_eq (operand : String) : wideValue? operand = value? operand := by
  rw [value?_eq, wideValue?, integer?]
  generalize operand.toList = text
  cases text with
  | nil => rfl
  | cons c text =>
      by_cases hc : c = '-'
      · subst hc
        have hsign : (-1 : Int64).toInt = -1 := by decide
        have hminus := bind_wideMagnitude? text (congrArg Int.natAbs hsign) fun _ => by decide
        simp only [splitSign, signed, Option.bind_map, hminus, hsign, Int.neg_one_mul]
        rfl
      · have hsign : (1 : Int64).toInt = 1 := by decide
        have hplus := bind_wideMagnitude? (c :: text) (congrArg Int.natAbs hsign)
          fun hnil => absurd hnil (List.cons_ne_nil c text)
        rw [splitSign_of_ne hc, signed_of_ne magnitude? hc]
        simp only [Option.bind_map, hplus, hsign, Int.one_mul]
        rfl

end Operand

namespace Instruction

open Operand

variable {operand : String} {line : Nat}

theorem pushValue_eq_ok_iff {value : Int32} :
    pushValue (some operand) line = .ok value ↔ value? operand = some value := by
  rw [pushValue, Option.bind_some]
  cases value? operand <;> simp

theorem pushValue_eq_error_iff {failure : Failure} :
    pushValue (some operand) line = .error failure ↔
      failure = .pushArgument line ∧ ¬∃ value, value? operand = some value := by
  rw [pushValue, Option.bind_some]
  cases value? operand <;> simp [eq_comm]

/-- An operand without a value is rejected in the name of its line. -/
theorem pushValue_of_forall_not_fits (h : ∀ n, Denotes operand.toList n → ¬Fits n) :
    pushValue (some operand) line = .error (.pushArgument line) := by
  rw [pushValue_eq_error_iff, exists_value?_iff]
  exact ⟨rfl, fun ⟨n, hn, hfits⟩ => h n hn hfits⟩

/-- A `push` takes an operand exactly if it denotes an integer of 32 bits, and inserts this
integer. Every other operand and a missing one are rejected in the name of the line. Leading zeros
change nothing, and digits for which a word of 64 bits is too narrow are rejected with and without
a sign. To read the digits into such a word and to multiply it by the sign takes the same operands
and gives the same values, and the product does not overflow. -/
theorem pushValue_exact (line : Nat) :
    pushValue none line = .error (.pushArgument line) ∧
    (∀ operand : String,
      (∀ value, pushValue (some operand) line = .ok value ↔
        Denotes operand.toList value.toInt) ∧
      ((∃ value, pushValue (some operand) line = .ok value) ↔
        ∃ n, Denotes operand.toList n ∧ Fits n) ∧
      ∀ failure, pushValue (some operand) line = .error failure ↔
        failure = .pushArgument line ∧ ¬∃ n, Denotes operand.toList n ∧ Fits n) ∧
    (∀ (value : Int32) (zeros : Nat),
      pushValue (some (String.ofList (padded zeros (Decimal.text value.toInt).toList))) line =
        .ok value) ∧
    (∀ digits n, Spells digits n → 2 ^ 63 ≤ n →
      pushValue (some (String.ofList digits)) line = .error (.pushArgument line) ∧
      pushValue (some (String.ofList ('-' :: digits))) line = .error (.pushArgument line)) ∧
    ∀ operand : String,
      (∀ value, pushValue (some operand) line = .ok value ↔ wideValue? operand = some value) ∧
      let (sign, digits) := splitSign operand.toList
      ∀ magnitude, wideMagnitude? sign digits = some magnitude →
        (sign * magnitude).toInt = sign.toInt * magnitude.toInt := by
  refine ⟨rfl, ?_, ?_, ?_, ?_⟩
  · intro operand
    refine ⟨?_, ?_, ?_⟩
    · intro value
      rw [pushValue_eq_ok_iff, value?_eq_some_iff]
    · simp only [pushValue_eq_ok_iff, exists_value?_iff]
    · intro failure
      rw [pushValue_eq_error_iff, exists_value?_iff]
  · intro value zeros
    have hdenotes : Denotes (Decimal.text value.toInt).toList value.toInt :=
      value?_eq_some_iff.mp (value?_text value)
    rw [pushValue_eq_ok_iff, value?_eq_some_iff, String.toList_ofList]
    exact hdenotes.padded zeros
  · intro digits n hspells hlarge
    have hne : digits ≠ [] := by
      rintro rfl
      obtain ⟨-, rfl⟩ := magnitude?_eq_some_iff.mp (spells_iff.mp hspells)
      exact absurd hlarge (by decide)
    refine ⟨pushValue_of_forall_not_fits ?_, pushValue_of_forall_not_fits ?_⟩
    · rw [String.toList_ofList]
      rintro k hk ⟨-, hmax⟩
      obtain rfl := hk.unique (.unsigned hne hspells)
      omega
    · rw [String.toList_ofList]
      rintro k hk ⟨hmin, -⟩
      obtain rfl := hk.unique (.negated hspells)
      omega
  · intro operand
    constructor
    · intro value
      rw [pushValue_eq_ok_iff, wideValue?_eq]
    · intro magnitude h
      obtain ⟨n, hn⟩ := exists_natCast_of_wideMagnitude? h
      exact toInt_sign_mul (natAbs_splitSign operand.toList) hn

/-- The least value behind leading zeros is taken, its negation is not, and digits that would wrap
to a small number are rejected. -/
theorem pushValue_exact_limits :
    pushValue (some "-002147483648") 4 = .ok (-2147483648) ∧
      pushValue (some "2147483648") 4 = .error (.pushArgument 4) ∧
      pushValue (some "18446744073709551617") 4 = .error (.pushArgument 4) := by
  obtain ⟨-, hoperand, hpadded, hlarge, -⟩ := pushValue_exact 4
  refine ⟨hpadded (-2147483648) 2, ?_, ?_⟩
  · apply ((hoperand _).2.2 _).mpr
    refine ⟨rfl, ?_⟩
    rintro ⟨n, hn, -, hmax⟩
    obtain rfl := hn.unique (denotes_iff.mpr (by decide : integer? _ = some 2147483648))
    exact absurd hmax (by decide)
  · have hspells : Spells "18446744073709551617".toList 18446744073709551617 :=
      spells_iff.mpr (by decide)
    exact (hlarge _ _ hspells (by decide)).1

end Instruction

end StackQueue
