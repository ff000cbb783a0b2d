import Mathlib.Data.Int.ModEq
import Mathlib.Data.Rat.Floor
import StackQueue.Arithmetic

/-!
# Arithmetic in 32 bits and arithmetic on integers

A sum, a difference or a product is the only word that is congruent to the one of the integers.
Quotient and remainder exist for every divisor but zero, and one division, the one of the least
value by minus one, has a quotient that does not fit. In each operation the value behind the front
is the left-hand one.
-/

namespace StackQueue.Operator

/-- Of all words `word` alone is congruent to `n` modulo `2 ^ 32`. -/
structure Wrapped (n : ℤ) (word : Int32) : Prop where
  congruent : word.toInt ≡ n [ZMOD 2 ^ 32]
  unique : ∀ other : Int32, other.toInt ≡ n [ZMOD 2 ^ 32] → other = word

theorem toInt_bounds (word : Int32) : -2 ^ 31 ≤ word.toInt ∧ word.toInt < 2 ^ 31 :=
  ⟨Int32.le_toInt word, Int32.toInt_lt word⟩

/-- Words of one residue are the same, for all of them lie in one period. -/
theorem eq_of_modEq {word other : Int32} (h : other.toInt ≡ word.toInt [ZMOD 2 ^ 32]) :
    other = word := by
  have hword := toInt_bounds word
  have hother := toInt_bounds other
  apply Int32.toInt_inj.mp
  unfold Int.ModEq at h
  omega

theorem wrapped_ofInt (n : ℤ) : Wrapped n (Int32.ofInt n) := by
  have hcongruent : (Int32.ofInt n).toInt ≡ n [ZMOD 2 ^ 32] := by
    rw [Int32.toInt_ofInt]
    exact Int.bmod_emod
  exact ⟨hcongruent, fun other hother => eq_of_modEq (hother.trans hcongruent.symm)⟩

/-- The integer part of a number: a fraction is dropped, toward zero. -/
def truncate (x : ℚ) : ℤ :=
  if 0 ≤ x then ⌊x⌋ else ⌈x⌉

theorem truncate_neg (x : ℚ) : truncate (-x) = -truncate x := by
  rcases lt_trichotomy x 0 with h | rfl | h
  · simp [truncate, h.le, h.not_ge, Int.floor_neg]
  · simp [truncate]
  · simp [truncate, h.le, h.not_ge, Int.ceil_neg]

theorem truncate_natCast_div (m n : ℕ) : truncate ((m : ℚ) / n) = (m : ℤ).tdiv n := by
  have hnonneg : (0 : ℚ) ≤ (m : ℚ) / n := by positivity
  rw [truncate, if_pos hnonneg, Rat.floor_natCast_div_natCast,
    Int.tdiv_eq_ediv_of_nonneg (Int.natCast_nonneg m)]

/-- Division of integers that rounds toward zero truncates the exact quotient. -/
theorem truncate_div (m n : ℤ) : truncate ((m : ℚ) / n) = m.tdiv n := by
  -- both sides change their sign with either operand
  obtain ⟨a, rfl | rfl⟩ := m.eq_nat_or_neg <;> obtain ⟨b, rfl | rfl⟩ := n.eq_nat_or_neg <;>
    simp only [Int.cast_neg, Int.cast_natCast, neg_div, div_neg, truncate_neg,
      truncate_natCast_div, Int.neg_tdiv, Int.tdiv_neg]

/-- Words that are the quotient and the remainder of `dividend` by `divisor`. -/
structure Division (dividend divisor quotient remainder : Int32) : Prop where
  recombined : quotient * divisor + remainder = dividend
  remainder_lt : |remainder.toInt| < |divisor.toInt|
  remainder_sign : remainder = 0 ∨ remainder.toInt.sign = dividend.toInt.sign
  quotient_eq : ¬(dividend = Int32.minValue ∧ divisor = -1) →
    quotient.toInt = truncate ((dividend.toInt : ℚ) / divisor.toInt)
  overflow : dividend = Int32.minValue → divisor = -1 →
    quotient = Int32.minValue ∧ remainder = 0

/-- Quotient and remainder are determined by the operands. -/
theorem Division.unique {dividend divisor quotient remainder quotient' remainder' : Int32}
    (h : Division dividend divisor quotient remainder)
    (h' : Division dividend divisor quotient' remainder') :
    quotient = quotient' ∧ remainder = remainder' := by
  by_cases hoverflow : dividend = Int32.minValue ∧ divisor = -1
  · obtain ⟨hquotient, hremainder⟩ := h.overflow hoverflow.1 hoverflow.2
    obtain ⟨hquotient', hremainder'⟩ := h'.overflow hoverflow.1 hoverflow.2
    exact ⟨hquotient.trans hquotient'.symm, hremainder.trans hremainder'.symm⟩
  · have hquotient : quotient = quotient' := by
      apply Int32.toInt_inj.mp
      rw [h.quotient_eq hoverflow, h'.quotient_eq hoverflow]
    subst hquotient
    exact ⟨rfl, Int32.add_right_inj _ |>.mp (h.recombined.trans h'.recombined.symm)⟩

/-- The quotient of words is the wrapped quotient of their integers. -/
theorem ofInt_tdiv_toInt (dividend divisor : Int32) :
    Int32.ofInt (dividend.toInt.tdiv divisor.toInt) = dividend / divisor := by
  rw [Int32.ofInt_tdiv (Int32.le_toInt _) (Int32.toInt_le _) (Int32.le_toInt _)
    (Int32.toInt_le _), Int32.ofInt_toInt, Int32.ofInt_toInt]

theorem ofInt_tmod_toInt (dividend divisor : Int32) :
    Int32.ofInt (dividend.toInt.tmod divisor.toInt) = dividend % divisor := by
  rw [Int32.ofInt_tmod (Int32.le_toInt _) (Int32.toInt_le _) (Int32.le_toInt _)
    (Int32.toInt_le _), Int32.ofInt_toInt, Int32.ofInt_toInt]

theorem abs_tmod_lt (m : ℤ) {n : ℤ} (h : n ≠ 0) : |m.tmod n| < |n| := by
  rw [Int.abs_eq_natAbs, Int.abs_eq_natAbs, Int.natAbs_tmod]
  exact_mod_cast Nat.mod_lt _ (Int.natAbs_pos.mpr h)

theorem sign_tmod_or (m n : ℤ) : m.tmod n = 0 ∨ (m.tmod n).sign = m.sign := by
  by_cases h : n ∣ m
  · exact .inl (Int.tmod_eq_zero_of_dvd h)
  · exact .inr (by rw [Int.sign_tmod, if_neg h])

/-- The only quotient that does not fit is the one of the least value by minus one. -/
theorem toInt_div {dividend divisor : Int32}
    (h : ¬(dividend = Int32.minValue ∧ divisor = -1)) :
    (dividend / divisor).toInt = dividend.toInt.tdiv divisor.toInt := by
  by_cases hdividend : dividend = Int32.minValue
  · exact Int32.toInt_div_of_ne_right _ _ fun hdivisor => h ⟨hdividend, hdivisor⟩
  · exact Int32.toInt_div_of_ne_left _ _ hdividend

theorem division_div_mod (dividend : Int32) {divisor : Int32} (h : divisor ≠ 0) :
    Division dividend divisor (dividend / divisor) (dividend % divisor) where
  recombined := by
    calc dividend / divisor * divisor + dividend % divisor
        = Int32.ofInt (dividend.toInt.tdiv divisor.toInt * divisor.toInt
            + dividend.toInt.tmod divisor.toInt) := by
          rw [Int32.ofInt_add, Int32.ofInt_mul, ofInt_tdiv_toInt, ofInt_tmod_toInt,
            Int32.ofInt_toInt]
      _ = dividend := by rw [Int.tdiv_mul_add_tmod, Int32.ofInt_toInt]
  remainder_lt := by
    rw [Int32.toInt_mod]
    exact abs_tmod_lt _ fun hzero => h (Int32.toInt_inj.mp hzero)
  remainder_sign := by
    rw [← Int32.toInt_inj, Int32.toInt_mod]
    exact sign_tmod_or _ _
  quotient_eq hfits := by rw [toInt_div hfits, truncate_div]
  overflow hdividend hdivisor := by
    subst hdividend hdivisor
    decide

/-- Behind a front that is not zero, quotient and remainder are the words of the division. -/
theorem apply_div_and_mod_iff {front second quotient remainder : Int32} (h : front ≠ 0) :
    div.apply front second = some quotient ∧ mod.apply front second = some remainder ↔
      Division second front quotient remainder := by
  have hdivision := division_div_mod second h
  simp only [apply, h, if_false, Option.some.injEq]
  constructor
  · rintro ⟨rfl, rfl⟩
    exact hdivision
  · exact hdivision.unique

/-- Sums, differences and products wrap, zero alone is no divisor, and every other divisor gives
the quotient truncated toward zero and its remainder. -/
theorem apply_exact (front second : Int32) :
    (∃ sum, add.apply front second = some sum ∧ Wrapped (second.toInt + front.toInt) sum) ∧
    (∃ difference, sub.apply front second = some difference ∧
      Wrapped (second.toInt - front.toInt) difference) ∧
    (∃ product, mul.apply front second = some product ∧
      Wrapped (second.toInt * front.toInt) product) ∧
    (div.apply front second = none ↔ front = 0) ∧
    (mod.apply front second = none ↔ front = 0) ∧
    (front ≠ 0 → ∃ quotient remainder, div.apply front second = some quotient ∧
      mod.apply front second = some remainder ∧ Division second front quotient remainder) ∧
    ∀ op value, apply op front second = some value →
      -2 ^ 31 ≤ value.toInt ∧ value.toInt < 2 ^ 31 := by
  refine ⟨⟨_, rfl, ?sum⟩, ⟨_, rfl, ?difference⟩, ⟨_, rfl, ?product⟩, ?noQuotient, ?noRemainder,
    ?division, fun _ value _ => toInt_bounds value⟩
  case sum =>
    simpa using wrapped_ofInt (second.toInt + front.toInt)
  case difference =>
    simpa using wrapped_ofInt (second.toInt - front.toInt)
  case product =>
    simpa using wrapped_ofInt (second.toInt * front.toInt)
  case noQuotient =>
    simp [apply_eq_none_iff]
  case noRemainder =>
    simp [apply_eq_none_iff]
  case division =>
    intro h
    have hdivision := division_div_mod second h
    obtain ⟨hdiv, hmod⟩ := (apply_div_and_mod_iff h).mpr hdivision
    exact ⟨_, _, hdiv, hmod, hdivision⟩

/-- The least value by minus one is itself, and nothing remains. -/
theorem apply_exact_least_by_minus_one :
    div.apply (-1) Int32.minValue = some Int32.minValue ∧
      mod.apply (-1) Int32.minValue = some 0 := by
  obtain ⟨quotient, remainder, hdiv, hmod, hdivision⟩ :=
    (apply_exact (-1) Int32.minValue).2.2.2.2.2.1 (by decide)
  obtain ⟨rfl, rfl⟩ := hdivision.overflow rfl rfl
  exact ⟨hdiv, hmod⟩

/-- The quotient of `-7` by `2` is not rounded down. -/
example : div.apply 2 (-7) = some (-3) ∧ mod.apply 2 (-7) = some (-1) := by decide

end StackQueue.Operator
