/-!
# Operands of `push`

An operand is an optional minus sign followed by ASCII digits, of any length and with any number of
leading zeros. The digits may be missing only after a sign, which then stands for zero. The integer
that the digits denote must fit in 32 bits; it is never wrapped.

## Implementation notes

`integer?` says what an operand denotes, however long it is. `value?` evaluates no more digits than
a 32-bit integer can have: behind the leading zeros, a longer run of digits denotes too large a
number whatever the digits are. So its cost is linear in the length of the operand.
-/

namespace StackQueue.Operand

/-- The number that a run of decimal digits denotes, zero if the run is empty. Any other character
makes the text meaningless. -/
def magnitude? (digits : List Char) : Option Nat :=
  if digits.all Char.isDigit then some (Nat.ofDigitChars 10 digits 0) else none

/-- The digits behind the leading zeros. -/
def significant (digits : List Char) : List Char :=
  digits.dropWhile fun c => c = '0'

/-- The number of digits of the largest magnitudes that fit in 32 bits. -/
def wordDigits : Nat := 10

/-- The least number with more than `wordDigits` digits. -/
def tooLarge : Nat := 10000000000

/-- The number that a run of decimal digits denotes, unless it has more significant digits than
fit in 32 bits. -/
def boundedMagnitude? (digits : List Char) : Option Nat :=
  if digits.all Char.isDigit && (significant digits).length ≤ wordDigits then
    some (Nat.ofDigitChars 10 (significant digits) 0)
  else
    none

/-- Read the sign of an operand and leave the digits to `magnitude?`. Without a sign there must be
a digit. -/
def signed (magnitude? : List Char → Option Nat) : List Char → Option Int
  | [] => none
  | '-' :: digits => (magnitude? digits).map fun (n : Nat) => -(n : Int)
  | digits => (magnitude? digits).map fun (n : Nat) => (n : Int)

/-- The integer that an operand denotes, however large. -/
def integer? (text : List Char) : Option Int :=
  signed magnitude? text

/-- The 32-bit word with the given value, if there is one. -/
def word? (n : Int) : Option Int32 :=
  if Int32.minValue.toInt ≤ n ∧ n ≤ Int32.maxValue.toInt then some (Int32.ofInt n) else none

/-- The value that the operand of a `push` denotes. -/
def value? (operand : String) : Option Int32 :=
  (signed boundedMagnitude? operand.toList).bind word?

/-- A word read back as an integer is the integer that it was made from. -/
theorem toInt_of_word?_eq_some {n : Int} {word : Int32} (h : word? n = some word) :
    word.toInt = n := by
  unfold word? at h
  split at h
  · next hn =>
    cases h
    exact Int32.toInt_ofInt_of_le hn.1 (Int.lt_add_one_of_le hn.2)
  · cases h

/-- Every word is the word of its own value. -/
theorem word?_toInt (word : Int32) : word? word.toInt = some word := by
  unfold word?
  rw [if_pos ⟨Int32.le_toInt word, Int32.toInt_le word⟩, Int32.ofInt_toInt]

/-- An integer that is too large in magnitude has no word. -/
theorem word?_eq_none {n : Int} (h : tooLarge ≤ n.natAbs) : word? n = none := by
  have hmin : Int32.minValue.toInt = -2147483648 := by decide
  have hmax : Int32.maxValue.toInt = 2147483647 := by decide
  unfold word?
  unfold tooLarge at h
  rw [if_neg (by omega)]

/-- Leading zeros do not change the number. -/
theorem ofDigitChars_significant (digits : List Char) :
    Nat.ofDigitChars 10 (significant digits) 0 = Nat.ofDigitChars 10 digits 0 := by
  induction digits with
  | nil => rfl
  | cons c digits ih =>
      by_cases hc : c = '0'
      · subst hc
        simpa [significant, Nat.ofDigitChars_cons] using ih
      · simp [significant, hc]

/-- A number with too many significant digits is too large in magnitude. -/
theorem le_ofDigitChars_of_lt_length {digits : List Char} (hdigits : digits.all Char.isDigit = true)
    (hlength : wordDigits < (significant digits).length) :
    tooLarge ≤ Nat.ofDigitChars 10 digits 0 := by
  rw [← ofDigitChars_significant]
  cases hs : significant digits with
  | nil => simp [hs] at hlength
  | cons c others =>
      have hmem : c ∈ digits := by
        have hsuffix : significant digits <:+ digits := List.dropWhile_suffix _
        exact hsuffix.subset (by simp [hs])
      have hdigit : c.isDigit = true := List.all_eq_true.mp hdigits c hmem
      have hzero : c ≠ '0' := by
        have hhead := List.head_dropWhile_not (fun c => decide (c = '0')) (l := digits)
          (by intro hnil; rw [significant, hnil] at hs; cases hs)
        intro hc
        subst hc
        simp only [significant] at hs
        simp [hs] at hhead
      have hone : 1 ≤ c.toNat - '0'.toNat := by
        have hlow : '0'.toNat ≤ c.toNat := by
          simp only [Char.isDigit, Bool.and_eq_true, decide_eq_true_eq] at hdigit
          exact hdigit.1
        have hne : c.toNat ≠ '0'.toNat := fun heq => hzero (Char.toNat_inj.mp heq)
        omega
      have hothers : wordDigits ≤ others.length := by
        simpa [hs] using Nat.le_of_lt_succ (by simpa [hs] using hlength)
      rw [Nat.ofDigitChars_cons, Nat.ofDigitChars_eq_ofDigitChars_zero]
      calc tooLarge ≤ 10 ^ others.length := Nat.pow_le_pow_right (by decide : 0 < 10) hothers
        _ ≤ 10 ^ others.length * (10 * 0 + (c.toNat - '0'.toNat)) :=
            Nat.le_mul_of_pos_right _ (by omega)
        _ ≤ _ := Nat.le_add_right _ _

/-- The bound on the digits leaves out only numbers that are too large in magnitude. -/
theorem boundedMagnitude?_cases (digits : List Char) :
    boundedMagnitude? digits = magnitude? digits ∨
      boundedMagnitude? digits = none ∧
        ∃ n, magnitude? digits = some n ∧ tooLarge ≤ n := by
  unfold boundedMagnitude? magnitude?
  by_cases hdigits : digits.all Char.isDigit = true
  · by_cases hlength : (significant digits).length ≤ wordDigits
    · left
      simp [hdigits, hlength, ofDigitChars_significant]
    · right
      exact ⟨by simp [hlength], _, by simp [hdigits],
        le_ofDigitChars_of_lt_length hdigits (Nat.lt_of_not_le hlength)⟩
  · left
    simp [hdigits]

/-- The value of an operand is the integer that it denotes, if that integer fits in 32 bits. -/
theorem value?_eq (operand : String) : value? operand = (integer? operand.toList).bind word? := by
  have large (sign : Nat → Int) (hsign : ∀ n, (sign n).natAbs = n) (digits : List Char) :
      ((boundedMagnitude? digits).map sign).bind word? =
        ((magnitude? digits).map sign).bind word? := by
    rcases boundedMagnitude?_cases digits with h | ⟨h, n, hn, hlarge⟩
    · rw [h]
    · rw [h, hn]
      exact (word?_eq_none (by rw [hsign]; exact hlarge)).symm
  unfold value? integer? signed
  split
  · rfl
  · exact large (fun n => -(n : Int)) (by simp) _
  · exact large (fun n => (n : Int)) (by simp) _

end StackQueue.Operand
