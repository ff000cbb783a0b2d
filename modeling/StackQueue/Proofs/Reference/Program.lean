import StackQueue.Failure
import StackQueue.Instruction.Operand
import StackQueue.Mode
import StackQueue.Text.Token

/-!
# Programs on lists

A reference for what a program text means. Its state is a mode, a list of values whose head is the
front, and the octets printed so far; a line leads to the next state or fails and leaves it.

## Implementation notes

Words are compared with literal names, arithmetic is done on integers and then wrapped, and tokens
are taken one after the other from the front of a line. Nothing here looks at cells or slots, at
opcodes by table, or at an output that may be full.
-/

namespace StackQueue.Reference

/-- What a program works on. -/
structure State where
  mode : Mode
  values : List Int32
  printed : List UInt8
  deriving DecidableEq

/-- A text in UTF-8. -/
def octets (text : String) : List UInt8 :=
  text.toList.flatMap String.utf8EncodeChar

/-- Append octets to the output. -/
def State.print (state : State) (octets : List UInt8) : State :=
  { state with printed := state.printed ++ octets }

def State.withValues (state : State) (values : List Int32) : State :=
  { state with values }

/-- A value in decimal on a line of its own. -/
def decimalLine (value : Int32) : List UInt8 :=
  octets (toString value.toInt ++ "\n")

/-- The octet of a value from 0 to 127. -/
def character? (value : Int32) : Option UInt8 :=
  if 0 ≤ value.toInt ∧ value.toInt ≤ 127 then some (UInt8.ofNat value.toInt.toNat) else none

/-- The characters of the values up to the first one that is zero or no character. -/
def spell : List Int32 → List UInt8
  | [] => []
  | value :: values =>
      match character? value with
      | none => []
      | some octet => if octet = 0 then [] else octet :: spell values

/-- The results of arithmetic on unbounded integers. Quotients are truncated toward zero. -/
def result (op : Operator) (front second : Int) : Int :=
  match op with
  | .add => second + front
  | .sub => second - front
  | .mul => second * front
  | .div => second.tdiv front
  | .mod => second.tmod front

/-- Replace the front two values by one, which is wrapped to 32 bits. -/
def combine (line : Nat) (op : Operator) (state : State) : Except Failure State :=
  match state.values with
  | front :: second :: rest =>
      if (op = .div ∨ op = .mod) ∧ front = 0 then
        .error (.divisionByZero line)
      else
        .ok (state.withValues (Int32.ofInt (result op front.toInt second.toInt) :: rest))
  | _ => .error (.shortStack line (.arith op))

/-- Insert the value of an operand at the end that the mode names. -/
def push (line : Nat) (operand? : Option String) (state : State) : Except Failure State :=
  match operand?.bind fun operand => (Operand.integer? operand.toList).bind Operand.word? with
  | none => .error (.pushArgument line)
  | some value =>
      match state.mode with
      | .stack => .ok (state.withValues (value :: state.values))
      | .queue => .ok (state.withValues (state.values ++ [value]))

/-- Print the head as a decimal. -/
def pint (line : Nat) (state : State) : Except Failure State :=
  match state.values with
  | [] => .error (.emptyPint line)
  | front :: _ => .ok (state.print (decimalLine front))

/-- Drop the head. -/
def pop (line : Nat) (state : State) : Except Failure State :=
  match state.values with
  | [] => .error (.emptyPop line)
  | _ :: rest => .ok (state.withValues rest)

/-- Exchange the first two values. -/
def swap (line : Nat) (state : State) : Except Failure State :=
  match state.values with
  | front :: second :: rest => .ok (state.withValues (second :: front :: rest))
  | _ => .error (.shortStack line .swap)

/-- Print the character of the head. -/
def pchar (line : Nat) (state : State) : Except Failure State :=
  match state.values with
  | [] => .error (.pcharEmpty line)
  | front :: _ =>
      match character? front with
      | none => .error (.pcharRange line)
      | some octet => .ok (state.print [octet, 10])

/-- Move the head to the end. -/
def rotateLeft : List Int32 → List Int32
  | [] => []
  | front :: rest => rest ++ [front]

/-- Move the last value to the head. -/
def rotateRight (values : List Int32) : List Int32 :=
  match values.getLast? with
  | none => []
  | some last => last :: values.dropLast

/-- Carry out the instruction that a word names. -/
def instruction (line : Nat) (word : String) (operand? : Option String) (state : State) :
    Except Failure State :=
  match word with
  | "push" => push line operand? state
  | "pall" => .ok (state.print (state.values.flatMap decimalLine))
  | "pint" => pint line state
  | "pop" => pop line state
  | "nop" => .ok state
  | "swap" => swap line state
  | "add" => combine line .add state
  | "sub" => combine line .sub state
  | "mul" => combine line .mul state
  | "div" => combine line .div state
  | "mod" => combine line .mod state
  | "pchar" => pchar line state
  | "pstr" => .ok (state.print (spell state.values ++ [10]))
  | "rotl" => .ok (state.withValues (rotateLeft state.values))
  | "rotr" => .ok (state.withValues (rotateRight state.values))
  | _ => .error (.unknownInstruction line word)

/-- Pass over a comment and carry out any other word. -/
def dispatch (line : Nat) (word : String) (operand? : Option String) (state : State) :
    Except Failure State :=
  if word.toList.head? = some '#' then .ok state else instruction line word operand? state

/-- The first token of a text and the text behind it. -/
def nextToken? (text : List Char) : Option (List Char × List Char) :=
  match text.dropWhile Text.isSeparator with
  | [] => none
  | c :: rest =>
      some ((c :: rest).takeWhile fun d => !Text.isSeparator d,
        (c :: rest).dropWhile fun d => !Text.isSeparator d)

/-- The effect of the text of a line. -/
def line (number : Nat) (text : List Char) (state : State) : Except Failure State :=
  match nextToken? text with
  | none => .ok state
  | some (word, rest) =>
      match String.ofList word with
      | "stack" => .ok { state with mode := .stack }
      | "queue" => .ok { state with mode := .queue }
      | word =>
          dispatch number word ((nextToken? rest).map fun next => String.ofList next.1) state

/-- The texts between newlines, without an empty one behind the last newline. -/
def lines (source : List Char) : List (List Char) :=
  let pieces := source.splitOn '\n'
  if pieces.getLast? = some [] then pieces.dropLast else pieces

/-- The state that an effect leaves, and the failure if there is one. -/
def settle (state : State) : Except Failure State → State × Option Failure
  | .error failure => (state, some failure)
  | .ok state => (state, none)

/-- Run lines that are numbered from `number` on up to the first failure. -/
def runLines (state : State) (number : Nat) : List (List Char) → State × Option Failure
  | [] => (state, none)
  | text :: texts =>
      match line number text state with
      | .error failure => (state, some failure)
      | .ok state => runLines state (number + 1) texts

/-- Run the text of a program, whose lines are numbered from one. -/
def run (state : State) (source : String) : State × Option Failure :=
  runLines state 1 (lines source.toList)

end StackQueue.Reference
