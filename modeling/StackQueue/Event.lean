import StackQueue.Instruction.Basic
import StackQueue.Mode

/-!
# Events of a run

What a run tells an observer besides its output: which lines were comments, which instructions
were dispatched, when the mode changed, and how the run ended. An event is shown as a level, a
message and named fields of text.
-/

namespace StackQueue

/-- How much detail an event adds. -/
inductive Level where
  /-- One event for a line. -/
  | trace
  /-- One event for a change in the run as a whole. -/
  | debug
  deriving DecidableEq

/-- Something that happened in a run. -/
inductive Event where
  /-- A comment was passed. -/
  | comment (line : Nat)
  /-- An instruction is about to be carried out on a sequence of `depth` values. -/
  | dispatch (line : Nat) (instruction : Instruction) (depth : Nat)
  /-- Another mode than before is in force. -/
  | modeChanged (mode : Mode)
  /-- The sequence was dropped with the values that it held. -/
  | released (count : Nat)
  /-- The run failed, and perhaps a line is to blame. -/
  | aborted (line? : Option Nat)
  deriving DecidableEq

namespace Level

/-- The levels are named in capitals. -/
def name : Level → String
  | trace => "TRACE"
  | debug => "DEBUG"

end Level

namespace Event

/-- The component that reports all events. -/
def target : String := "monty::interpreter"

/-- Lines report traces, the run as a whole reports debugging events. -/
def level : Event → Level
  | comment _ | dispatch _ _ _ => .trace
  | modeChanged _ | released _ | aborted _ => .debug

/-- The kind of an event in words. -/
def message : Event → String
  | comment _ => "comment"
  | dispatch _ _ _ => "dispatch"
  | modeChanged _ => "insertion mode changed"
  | released _ => "container released"
  | aborted _ => "run aborted"

/-- A line number that may be missing, as a field shows it. -/
def lineField : Option Nat → String
  | some line => "Some(" ++ Decimal.text line ++ ")"
  | none => "None"

/-- What an event tells, as named texts. -/
def fields : Event → List (String × String)
  | comment line => [("line", Decimal.text line)]
  | dispatch line instruction depth =>
      [("line", Decimal.text line), ("opcode", instruction.opcode.name),
        ("instruction", instruction.label), ("depth", Decimal.text depth)]
  | modeChanged mode => [("mode", mode.name)]
  | released count => [("released", Decimal.text count)]
  | aborted line? => [("line", lineField line?)]

end Event

end StackQueue
