import StackQueue.Opcode
import StackQueue.Text.Decimal

/-!
# Failures

Everything that can end a run, by its cause. The wording is in `Failure.message` alone, and
`Failure.line?` tells which line is to blame.
-/

namespace StackQueue

/-- The causes for which a run or a command line fails. -/
inductive Failure where
  /-- The command line names no single program file. -/
  | usage
  /-- The program file cannot be read. -/
  | cannotOpen (path : String)
  /-- The first word of a line is no opcode. -/
  | unknownInstruction (line : Nat) (word : String)
  /-- No room for another value. -/
  | allocation
  /-- The operand of `push` is missing or no 32-bit integer. -/
  | pushArgument (line : Nat)
  /-- There is no front value to print as a decimal. -/
  | emptyPint (line : Nat)
  /-- There is no front value to remove. -/
  | emptyPop (line : Nat)
  /-- An opcode needs two values and found fewer. -/
  | shortStack (line : Nat) (opcode : Opcode)
  /-- The divisor, which is the front value, is zero. -/
  | divisionByZero (line : Nat)
  /-- The front value is no seven-bit character. -/
  | pcharRange (line : Nat)
  /-- There is no front value to print as a character. -/
  | pcharEmpty (line : Nat)
  /-- The output did not take all that was printed. -/
  | output
  deriving DecidableEq

namespace Failure

/-- Put the blamed line in front of a complaint. -/
def atLine (line : Nat) (complaint : String) : String :=
  "L" ++ Decimal.text line ++ ": " ++ complaint

/-- The wording of a failure. -/
def message : Failure → String
  | usage => "USAGE: monty file"
  | cannotOpen path => "Error: Can't open file " ++ path
  | unknownInstruction line word => atLine line ("unknown instruction " ++ word)
  | allocation => "Error: Memory allocation (malloc) failed"
  | pushArgument line => atLine line "usage: push integer"
  | emptyPint line => atLine line "can't pint, stack empty"
  | emptyPop line => atLine line "can't pop an empty stack"
  | shortStack line opcode => atLine line ("can't " ++ opcode.name ++ ", stack too short")
  | divisionByZero _ => "Division by zero"
  | pcharRange line => atLine line "can't pchar, value out of range"
  | pcharEmpty line => atLine line "can't pchar, stack empty"
  | output => "Error: Can't write output"

/-- The line to blame, for the failures that have one. A division by zero has one although its
wording does not show it. -/
def line? : Failure → Option Nat
  | unknownInstruction line _ | pushArgument line | emptyPint line | emptyPop line
  | shortStack line _ | divisionByZero line | pcharRange line | pcharEmpty line => some line
  | usage | cannotOpen _ | allocation | output => none

/-- What a failed run writes to its error stream: the wording and a newline. -/
def diagnostic (failure : Failure) : String :=
  failure.message ++ "\n"

/-- The exit status of every failed run. -/
def status : Nat := 1

end Failure

end StackQueue
