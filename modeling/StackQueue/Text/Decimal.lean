/-!
# Decimal text

Integers are written with the fewest decimal digits, after a minus sign if they are negative.
Line numbers, counts and printed values all use this form.
-/

namespace StackQueue.Decimal

/-- The characters of an integer: a minus sign if it is negative, then its digits without leading
zeros. -/
def render : Int → List Char
  | .ofNat n => Nat.toDigits 10 n
  | .negSucc n => '-' :: Nat.toDigits 10 (n + 1)

/-- The decimal form as a string. -/
def text (n : Int) : String :=
  String.ofList (render n)

/-- The text of an integer has exactly its rendered characters. -/
theorem toList_text (n : Int) : (text n).toList = render n := by
  simp [text]

/-- An integer is written as `toString` writes it. -/
theorem toList_toString (n : Int) : (toString n).toList = render n := by
  cases n with
  | ofNat n => simp [toString, Int.repr, render]
  | negSucc n => simp [toString, Int.repr, render]

/-- A natural number is written as `toString` writes it. -/
theorem text_natCast (n : Nat) : text n = toString n := rfl

/-- A rendered integer holds digits and at most a minus sign. -/
theorem isDigit_or_minus_of_mem_render {n : Int} {c : Char} (h : c ∈ render n) :
    c.isDigit = true ∨ c = '-' := by
  cases n with
  | ofNat n => exact Or.inl (Nat.isDigit_of_mem_toDigits (by decide) (by decide) h)
  | negSucc n =>
      rcases List.mem_cons.mp h with rfl | h
      · exact Or.inr rfl
      · exact Or.inl (Nat.isDigit_of_mem_toDigits (by decide) (by decide) h)

end StackQueue.Decimal
