/-!
# Arithmetic on the front two values

The front value is the right-hand operand: subtraction takes the front value away from the value
behind it. Values are 32-bit words in two's complement, so results wrap; quotients are truncated
toward zero and remainders have the sign of the dividend.
-/

namespace StackQueue

/-- The five operations that replace two values by one. -/
inductive Operator where
  | add | sub | div | mul | mod
  deriving DecidableEq

namespace Operator

/-- Every operator has one name, in lower case. -/
def name : Operator → String
  | add => "add"
  | sub => "sub"
  | div => "div"
  | mul => "mul"
  | mod => "mod"

/-- Combine the front value with the `second` one behind it. There is no result exactly when a
quotient or a remainder by zero is asked for; the least value divided by minus one wraps to
itself. -/
def apply (op : Operator) (front second : Int32) : Option Int32 :=
  match op with
  | add => some (second + front)
  | sub => some (second - front)
  | mul => some (second * front)
  | div => if front = 0 then none else some (second / front)
  | mod => if front = 0 then none else some (second % front)

/-- Only a zero divisor leaves an operation without a result. -/
theorem apply_eq_none_iff {op : Operator} {front second : Int32} :
    op.apply front second = none ↔ (op = div ∨ op = mod) ∧ front = 0 := by
  cases op <;> simp [apply]

end Operator

end StackQueue
