import StackQueue.Failure
import StackQueue.Instruction.Basic
import StackQueue.Instruction.Operand

/-!
# Resolving words to instructions

A word that starts with `#` is a comment and resolves to nothing. Every other word must be the
name of an opcode, and only `push` looks at its operand.
-/

namespace StackQueue.Instruction

/-- The instruction of an opcode that takes no operand. -/
def ofOpcode? : Opcode → Option Instruction
  | .push => none
  | .pall => some pall
  | .pint => some pint
  | .pop => some pop
  | .nop => some nop
  | .swap => some swap
  | .arith op => some (arith op)
  | .pchar => some pchar
  | .pstr => some pstr
  | .rotl => some rotl
  | .rotr => some rotr

/-- The value that a `push` on the given line inserts. -/
def pushValue (operand? : Option String) (line : Nat) : Except Failure Int32 :=
  match operand?.bind Operand.value? with
  | some value => .ok value
  | none => .error (.pushArgument line)

/-- Whether a first word opens a comment. -/
def isComment (word : String) : Bool :=
  word.toList.head? = some '#'

/-- What the words of a line ask for: nothing if the line is a comment. -/
def resolve (word : String) (operand? : Option String) (line : Nat) :
    Except Failure (Option Instruction) :=
  if isComment word then
    .ok none
  else
    match Opcode.ofName? word with
    | none => .error (.unknownInstruction line word)
    | some opcode =>
        match ofOpcode? opcode with
        | some instruction => .ok (some instruction)
        | none => (pushValue operand? line).map fun value => some (push value)

/-- An instruction without operand comes from the opcode that it reports. -/
theorem opcode_of_ofOpcode? {code : Opcode} {instruction : Instruction}
    (h : ofOpcode? code = some instruction) : instruction.opcode = code := by
  cases code <;> cases h <;> rfl

/-- Only `push` needs an operand. -/
theorem ofOpcode?_eq_none_iff {code : Opcode} : ofOpcode? code = none ↔ code = .push := by
  cases code <;> simp [ofOpcode?]

end StackQueue.Instruction
