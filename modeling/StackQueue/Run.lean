import StackQueue.Machine.Step

/-!
# Complete runs

A run carries out the text of a program on a new machine, drops the values and flushes the output.
A failure of the program is reported before a failure of the flush. Every run ends with one of two
statuses, and its diagnostic is empty exactly when it succeeded.
-/

namespace StackQueue

/-- What a complete run leaves behind. -/
structure Run where
  /-- The octets that the output took. -/
  output : Array UInt8
  /-- The failure that is reported, if there is one. -/
  failure? : Option Failure
  /-- What happened, in order. -/
  events : Array Event
  deriving DecidableEq

namespace Run

/-- Run the text of a program on a new machine in front of the given output. -/
def ofSource (source : String) (sink : Sink) (storage : Storage := .plentiful) : Run :=
  let body := (Machine.start sink).runSource source storage
  let released := body.machine.release
  let failure? := body.failure?.or released.failure?
  let aborted := failure?.map fun failure => Event.aborted failure.line?
  ⟨released.machine.sink.written, failure?, body.events ++ released.events ++ aborted.toArray⟩

/-- Zero for success. -/
def status (run : Run) : Nat :=
  match run.failure? with
  | none => 0
  | some _ => Failure.status

/-- One line for a failure, nothing for success. -/
def diagnostic (run : Run) : String :=
  match run.failure? with
  | none => ""
  | some failure => failure.diagnostic

end Run

end StackQueue
