import StackQueue.Opcode
import StackQueue.Text.Decimal

/-!
# Instructions

An instruction is an opcode together with what it needs to be carried out: `push` carries its
value, the other instructions carry nothing. A label is the form in which events show an
instruction.
-/

namespace StackQueue

/-- What a line asks for, once its words are understood. -/
inductive Instruction where
  /-- Insert a value at the end that the mode names. -/
  | push (value : Int32)
  /-- Print every value, front to back, one decimal a line. -/
  | pall
  /-- Print the front value as a decimal on a line. -/
  | pint
  /-- Remove the front value. -/
  | pop
  /-- Do nothing. -/
  | nop
  /-- Exchange the first two values. -/
  | swap
  /-- Replace the first two values by their result. -/
  | arith (op : Operator)
  /-- Print the front value as a character on a line. -/
  | pchar
  /-- Print the values as characters up to the first that is none, on a line. -/
  | pstr
  /-- Move the front value to the back. -/
  | rotl
  /-- Move the back value to the front. -/
  | rotr
  deriving DecidableEq

namespace Instruction

/-- The opcode that a line has to name for this instruction. -/
def opcode : Instruction → Opcode
  | push _ => .push
  | pall => .pall
  | pint => .pint
  | pop => .pop
  | nop => .nop
  | swap => .swap
  | arith op => .arith op
  | pchar => .pchar
  | pstr => .pstr
  | rotl => .rotl
  | rotr => .rotr

/-- The capitalised name of an operator in labels. -/
def operatorLabel : Operator → String
  | .add => "Add"
  | .sub => "Sub"
  | .div => "Div"
  | .mul => "Mul"
  | .mod => "Mod"

/-- The form in which events show an instruction: its kind, with its value or operator in
brackets. -/
def label : Instruction → String
  | push value => "Push(" ++ Decimal.text value.toInt ++ ")"
  | pall => "Pall"
  | pint => "Pint"
  | pop => "Pop"
  | nop => "Nop"
  | swap => "Swap"
  | arith op => "Binary(" ++ operatorLabel op ++ ")"
  | pchar => "Pchar"
  | pstr => "Pstr"
  | rotl => "Rotl"
  | rotr => "Rotr"

end Instruction

end StackQueue
