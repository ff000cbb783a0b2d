import StackQueue.Machine.Step

/-!
# Driving a machine from outside

A machine can be told one action, an instruction or a change of mode, or one command of a session:
a dispatch, a statement, a whole program text, a change of mode. A failure does not end a session;
the next command finds the machine as the failure left it. Storage is plentiful in a session.
-/

namespace StackQueue

/-- The smallest things that a machine can be told. -/
inductive Action where
  /-- Carry out an instruction. -/
  | perform (instruction : Instruction)
  /-- Put a mode in force. -/
  | select (mode : Mode)
  deriving DecidableEq

/-- What a session can ask of a machine. -/
inductive Command where
  /-- Resolve a word and carry out what it asks for. -/
  | dispatch (line : Nat) (word : String) (operand? : Option String)
  /-- Carry out a statement. -/
  | step (line : Nat) (statement : Statement)
  /-- Carry out the text of a program, whose lines are numbered from one. -/
  | runSource (source : String)
  /-- Put a mode in force. -/
  | setMode (mode : Mode)
  deriving DecidableEq

namespace Machine

/-- Carry out one action on behalf of the given line. -/
def act (m : Machine) (line : Nat) : Action → Outcome
  | .perform instruction => m.execute line instruction
  | .select mode => m.setMode mode

/-- Carry out one command of a session. -/
def obey (m : Machine) : Command → Outcome
  | .dispatch line word operand? => m.dispatch line word operand?
  | .step line statement => m.step line statement
  | .runSource source => m.runSource source
  | .setMode mode => m.setMode mode

/-- The machine after the commands of a session, whether they failed or not. -/
def afterSession (m : Machine) (commands : List Command) : Machine :=
  commands.foldl (fun m command => (m.obey command).machine) m

end Machine

end StackQueue
