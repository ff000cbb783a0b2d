import StackQueue.Mode
import StackQueue.Text.Line
import StackQueue.Text.Token

/-!
# Statements

A line is read by its first two tokens; the others are ignored. A line without token is blank, a
line whose first token names a mode selects it, and every other line holds the word of an
instruction and perhaps an operand. Whether the word means anything is decided later, when the
line is reached.

## Implementation notes

Lines are numbered from one and blank lines are counted, so that a number is what a reader of the
program text sees.
-/

namespace StackQueue

/-- One line of a program. -/
inductive Statement where
  /-- Nothing but separators. -/
  | blank
  /-- Select an insertion mode. -/
  | mode (mode : Mode)
  /-- A word to be resolved to an instruction, and the token after it. -/
  | op (word : String) (operand? : Option String)
  deriving DecidableEq

namespace Statement

/-- Read a statement off the tokens of a line. -/
def ofTokens : List String → Statement
  | [] => .blank
  | word :: others =>
      match Mode.ofName? word with
      | some selected => .mode selected
      | none => .op word others.head?

/-- The statement of one line. -/
def ofLine (line : List Char) : Statement :=
  ofTokens ((Text.tokens line).map String.ofList)

/-- The statement of a line given as a string. -/
def parse (line : String) : Statement :=
  ofLine line.toList

/-- The statements of a program, each with the number of its line. -/
def numbered (source : String) : List (Nat × Statement) :=
  ((Text.lines source.toList).zipIdx 1).map fun entry => (entry.2, ofLine entry.1)

end Statement

end StackQueue
