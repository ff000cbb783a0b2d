import Mathlib.Data.List.Forall2
import StackQueue.Proofs.Instruction.Labels
import StackQueue.Proofs.Run.Ending

/-!
# Replaying the events of a run

The events of a run, read as the texts that an observer is shown, are instructions and modes for a
new machine. A replay in front of an equal output writes what the run wrote, holds as many values
as the run dropped, and fails where and as the run failed, unless the run failed for a word that
never became an instruction or for its flush.

## Implementation notes

A record holds texts only, so a replay has to read numbers, modes and instructions back from them;
it knows neither the program nor the events themselves. It goes on after an instruction that fails,
and that only the last one does is part of what is proved.
-/

namespace StackQueue

/-- An event as it is shown. -/
structure Record where
  level : String
  target : String
  message : String
  fields : List (String × String)
  deriving DecidableEq

def Event.record (event : Event) : Record :=
  ⟨event.level.name, Event.target, event.message, event.fields⟩

/-- An instruction that has been carried out: its line, the number of values before it, and why it
failed, if it did. -/
structure Performance where
  line : Nat
  instruction : Instruction
  depth : Nat
  failure? : Option Failure
  deriving DecidableEq

namespace Record

/-- The text of the field with the given name. -/
def field? (record : Record) (name : String) : Option String :=
  (record.fields.find? fun field => field.1 = name).map Prod.snd

def isDispatch (record : Record) : Bool :=
  record.message = "dispatch"

def isRelease (record : Record) : Bool :=
  record.message = "container released"

/-- The mode that a record puts in force. -/
def mode? (record : Record) : Option Mode :=
  if record.message = "insertion mode changed" then
    (record.field? "mode").bind Mode.ofName?
  else
    none

/-- The instruction that a record dispatches, and its line. -/
def dispatched? (record : Record) : Option (Nat × Instruction) :=
  if record.isDispatch then
    (record.field? "line").bind fun line =>
      (record.field? "instruction").bind fun label =>
        (Decimal.natural? line).bind fun line =>
          (Instruction.ofLabel? label).map fun instruction => (line, instruction)
  else
    none

/-- What the record of a dispatched instruction tells about its performance. -/
def Describes (record : Record) (performance : Performance) : Prop :=
  record.field? "line" = some (Decimal.text performance.line) ∧
    record.field? "instruction" = some performance.instruction.label ∧
    record.field? "opcode" = some performance.instruction.opcode.name ∧
    record.field? "depth" = some (Decimal.text performance.depth)

end Record

namespace Machine

/-- Do what records tell one after the other: put modes in force and carry out instructions. The
answer is the machine in the end and the instructions carried out. -/
def replay (m : Machine) : List Record → Machine × List Performance
  | [] => (m, [])
  | record :: records =>
      match record.mode?, record.dispatched? with
      | some mode, _ => replay { m with mode } records
      | none, some (line, instruction) =>
          let outcome := m.execute line instruction
          let (last, performances) := replay outcome.machine records
          (last, ⟨line, instruction, m.sequence.length, outcome.failure?⟩ :: performances)
      | none, none => replay m records

variable {m : Machine} {record : Record}

theorem replay_cons_of_mode {mode : Mode} (h : record.mode? = some mode) (records : List Record) :
    m.replay (record :: records) = Machine.replay { m with mode } records := by
  rw [replay, h]

theorem replay_cons_of_dispatched {line : Nat} {instruction : Instruction}
    (hmode : record.mode? = none) (h : record.dispatched? = some (line, instruction))
    (records : List Record) :
    m.replay (record :: records) =
      let outcome := m.execute line instruction
      let rest := outcome.machine.replay records
      (rest.1, ⟨line, instruction, m.sequence.length, outcome.failure?⟩ :: rest.2) := by
  rw [replay, hmode, h]

theorem replay_cons_of_none (hmode : record.mode? = none) (h : record.dispatched? = none)
    (records : List Record) : m.replay (record :: records) = m.replay records := by
  rw [replay, hmode, h]

/-- A replay can be interrupted and resumed anywhere. -/
theorem replay_append (m : Machine) (first second : List Record) :
    m.replay (first ++ second) =
      (((m.replay first).1.replay second).1,
        (m.replay first).2 ++ ((m.replay first).1.replay second).2) := by
  induction first generalizing m with
  | nil => rfl
  | cons record first ih =>
      rw [List.cons_append]
      cases hmode : record.mode? with
      | some mode =>
          rw [replay_cons_of_mode hmode, replay_cons_of_mode hmode]
          exact ih _
      | none =>
          cases hdispatched : record.dispatched? with
          | none =>
              rw [replay_cons_of_none hmode hdispatched, replay_cons_of_none hmode hdispatched]
              exact ih _
          | some dispatched =>
              obtain ⟨line, instruction⟩ := dispatched
              rw [replay_cons_of_dispatched hmode hdispatched,
                replay_cons_of_dispatched hmode hdispatched]
              simp only [ih, List.cons_append]

/-- Records that ask for nothing leave the machine as it is. -/
theorem replay_of_none {records : List Record}
    (h : ∀ record ∈ records, record.mode? = none ∧ record.dispatched? = none) :
    m.replay records = (m, []) := by
  induction records with
  | nil => rfl
  | cons record records ih =>
      obtain ⟨⟨hmode, hdispatched⟩, hrest⟩ := List.forall_mem_cons.mp h
      rw [replay_cons_of_none hmode hdispatched]
      exact ih hrest

end Machine

/-! ### What records are read as -/

namespace Event

theorem mode?_modeChanged (mode : Mode) : (modeChanged mode).record.mode? = some mode :=
  Mode.ofName?_eq_some_iff.mpr rfl

theorem dispatched?_dispatch (line : Nat) (instruction : Instruction) (depth : Nat) :
    (dispatch line instruction depth).record.dispatched? = some (line, instruction) := by
  have hlabel : Instruction.ofLabel? instruction.label = some instruction :=
    Instruction.ofLabel?_eq_some_iff.mpr rfl
  change (Decimal.natural? (Decimal.text line)).bind (fun number =>
    (Instruction.ofLabel? instruction.label).map fun found => (number, found)) = _
  rw [Decimal.natural?_text, hlabel]
  rfl

theorem describes_dispatch (line : Nat) (instruction : Instruction) (depth : Nat)
    (failure? : Option Failure) :
    (dispatch line instruction depth).record.Describes ⟨line, instruction, depth, failure?⟩ :=
  ⟨rfl, rfl, rfl, rfl⟩

end Event

/-! ### Faithful records -/

/-- Whether a failure comes from a word that did not become an instruction. -/
def Failure.IsUnresolved (failure : Failure) : Prop :=
  (∃ line word, failure = .unknownInstruction line word) ∨ ∃ line, failure = .pushArgument line

/-- How the instructions of a run and its failure fit together: only the last one may have failed,
and if none did, the failure comes from a word that became none. -/
inductive Ends : List Performance → Option Failure → Prop
  | success {performances : List Performance}
      (h : ∀ performance ∈ performances, performance.failure? = none) : Ends performances none
  | unresolved {performances : List Performance} {failure : Failure}
      (h : ∀ performance ∈ performances, performance.failure? = none)
      (hfailure : failure.IsUnresolved) : Ends performances (some failure)
  | failed {performances : List Performance} {last : Performance} {failure : Failure}
      (h : ∀ performance ∈ performances, performance.failure? = none)
      (hlast : last.failure? = some failure) : Ends (performances ++ [last]) (some failure)

namespace Ends

variable {performances others : List Performance} {failure? : Option Failure}

theorem succeeded (h : Ends performances none) :
    ∀ performance ∈ performances, performance.failure? = none := by
  cases h with
  | success h => exact h

/-- Instructions that have not failed can be put in front. -/
theorem append (h : ∀ performance ∈ performances, performance.failure? = none)
    (hothers : Ends others failure?) : Ends (performances ++ others) failure? := by
  have hall {others : List Performance}
      (hothers : ∀ performance ∈ others, performance.failure? = none) :
      ∀ performance ∈ performances ++ others, performance.failure? = none := by
    intro performance hmem
    exact (List.mem_append.mp hmem).elim (h performance) (hothers performance)
  cases hothers with
  | success hothers => exact .success (hall hothers)
  | unresolved hothers hfailure => exact .unresolved (hall hothers) hfailure
  | failed hothers hlast =>
      rw [← List.append_assoc]
      exact .failed (hall hothers) hlast

/-- One instruction fails as the run does. -/
theorem singleton (performance : Performance) : Ends [performance] performance.failure? := by
  cases hfailure : performance.failure? with
  | none => exact .success (by simpa using hfailure)
  | some failure => exact .failed (List.forall_mem_nil _) hfailure

/-- Before the last instruction none has failed. -/
theorem dropLast (h : Ends performances failure?) :
    ∀ performance ∈ performances.dropLast, performance.failure? = none := by
  cases h with
  | success h | unresolved h =>
      exact fun performance hmem => h performance (List.dropLast_subset _ hmem)
  | failed h =>
      rw [List.dropLast_concat]
      exact h

/-- If the last instruction has failed, the run has failed for the same reason. -/
theorem getLast? (h : Ends performances failure?) {performance : Performance} {failure : Failure}
    (hlast : performances.getLast? = some performance)
    (hfailure : performance.failure? = some failure) : failure? = some failure := by
  cases h with
  | success h | unresolved h =>
      rw [h performance (List.mem_of_getLast? hlast)] at hfailure
      cases hfailure
  | failed h hlast' =>
      rw [List.getLast?_concat, Option.some.injEq] at hlast
      rw [hlast, hfailure] at hlast'
      rw [hlast']

/-- If no instruction has failed, a failure comes from a word that became none. -/
theorem isUnresolved {failure : Failure} (h : Ends performances (some failure))
    (hnone : ∀ performance ∈ performances, performance.failure? = none) :
    failure.IsUnresolved := by
  cases h with
  | unresolved _ hfailure => exact hfailure
  | failed _ hlast =>
      rw [hnone _ (List.mem_append_right _ List.mem_cons_self)] at hlast
      cases hlast

end Ends

namespace Machine

variable {m : Machine} {outcome : Outcome} {performances others : List Performance}

/-- The records of an outcome, replayed from the machine before it, lead to the machine after it
through these performances. -/
structure Recorded (m : Machine) (outcome : Outcome) (performances : List Performance) : Prop where
  replay_eq : m.replay (outcome.events.toList.map Event.record) = (outcome.machine, performances)
  describes : List.Forall₂ Record.Describes
    ((outcome.events.toList.map Event.record).filter Record.isDispatch) performances
  no_release : (outcome.events.toList.map Event.record).filter Record.isRelease = []
  ends : Ends performances outcome.failure?

/-- What follows a success is replayed behind it. -/
theorem Recorded.andThen {next : Machine → Outcome} (h : m.Recorded outcome performances)
    (hsuccess : outcome.failure? = none)
    (hnext : outcome.machine.Recorded (next outcome.machine) others) :
    m.Recorded (outcome.andThen next) (performances ++ others) := by
  rw [Outcome.andThen_of_success _ hsuccess]
  constructor
  · rw [Array.toList_append, List.map_append, replay_append, h.replay_eq, hnext.replay_eq]
  · rw [Array.toList_append, List.map_append, List.filter_append]
    exact List.rel_append h.describes hnext.describes
  · rw [Array.toList_append, List.map_append, List.filter_append, h.no_release, hnext.no_release]
    rfl
  · have hends := h.ends
    rw [hsuccess] at hends
    exact .append hends.succeeded hnext.ends

/-- What tells nothing and changes nothing leaves nothing to replay. -/
theorem recorded_of_no_events (hevents : outcome.events = #[]) (hmachine : outcome.machine = m)
    (hends : Ends [] outcome.failure?) : m.Recorded outcome [] := by
  constructor
  · rw [hevents, hmachine]
    rfl
  · rw [hevents]
    exact .nil
  · rw [hevents]
    rfl
  · exact hends

/-- A dispatched instruction is replayed as it was carried out. -/
theorem recorded_execute (m : Machine) (line : Nat) (instruction : Instruction) :
    m.Recorded ((m.execute line instruction).after (.dispatch line instruction m.sequence.length))
      [⟨line, instruction, m.sequence.length, (m.execute line instruction).failure?⟩] := by
  have hrecords :
      (((m.execute line instruction).after
        (.dispatch line instruction m.sequence.length)).events.toList.map Event.record) =
      [(Event.dispatch line instruction m.sequence.length).record] := by
    simp only [Outcome.after, events_execute]
    rfl
  constructor
  · rw [hrecords, replay_cons_of_dispatched rfl (Event.dispatched?_dispatch ..)]
    rfl
  · rw [hrecords]
    exact .cons (Event.describes_dispatch ..) .nil
  · rw [hrecords]
    rfl
  · exact .singleton _

/-- Every step leaves records from which it can be replayed. -/
theorem exists_recorded_step (m : Machine) (line : Nat) (statement : Statement) :
    ∃ performances, m.Recorded (m.step line statement) performances := by
  cases statement with
  | blank => exact ⟨[], recorded_of_no_events rfl rfl (.success (List.forall_mem_nil _))⟩
  | mode selected =>
      refine ⟨[], ?_⟩
      rw [step_mode]
      split
      · next hmode =>
          exact recorded_of_no_events rfl (by rw [← hmode]) (.success (List.forall_mem_nil _))
      · constructor
        · exact replay_cons_of_mode (Event.mode?_modeChanged selected) []
        · exact .nil
        · rfl
        · exact .success (List.forall_mem_nil _)
  | op word operand? =>
      rw [step]
      cases hresolve : Instruction.resolve word operand? line with
      | error failure =>
          rw [dispatch_of_error hresolve]
          refine ⟨[], recorded_of_no_events rfl rfl (.unresolved (List.forall_mem_nil _) ?_)⟩
          exact (Instruction.resolve_eq_error_iff.mp hresolve).imp (fun h => ⟨line, word, h.1⟩)
            fun h => ⟨line, h.1⟩
      | ok instruction? =>
          cases instruction? with
          | none =>
              rw [dispatch_of_comment hresolve]
              refine ⟨[], ?_⟩
              constructor
              · exact replay_cons_of_none rfl rfl []
              · exact .nil
              · rfl
              · exact .success (List.forall_mem_nil _)
          | some instruction =>
              rw [dispatch_of_instruction hresolve]
              exact ⟨_, recorded_execute m line instruction⟩

/-- Every run of statements leaves records from which it can be replayed. -/
theorem exists_recorded_runStatements (m : Machine) (statements : List (Nat × Statement)) :
    ∃ performances, m.Recorded (m.runStatements statements) performances := by
  induction statements generalizing m with
  | nil => exact ⟨[], recorded_of_no_events rfl rfl (.success (List.forall_mem_nil _))⟩
  | cons statement statements ih =>
      obtain ⟨line, statement⟩ := statement
      obtain ⟨performances, hstep⟩ := exists_recorded_step m line statement
      rw [runStatements_cons]
      cases hfailure : (m.step line statement).failure? with
      | some failure =>
          rw [Outcome.andThen_of_failure hfailure]
          exact ⟨performances, hstep⟩
      | none =>
          obtain ⟨others, hrest⟩ := ih (m.step line statement).machine
          exact ⟨performances ++ others, hstep.andThen hfailure hrest⟩

end Machine

namespace Run

variable {source : String} {sink : Sink}

/-- Behind the records of the lines, a run tells how many values it dropped, and perhaps that it
failed. -/
theorem exists_records_ofSource (source : String) (sink : Sink) :
    ∃ others : List Record,
      (∀ record ∈ others, record.mode? = none ∧ record.dispatched? = none) ∧
      others.filter Record.isDispatch = [] ∧ others.filter Record.isRelease = [] ∧
      (ofSource source sink).events.toList.map Event.record =
        (body source sink).events.toList.map Event.record ++
          (Event.released (body source sink).machine.sequence.length).record :: others := by
  rw [events_ofSource, List.map_append, List.map_cons]
  cases (ofSource source sink).failure? with
  | none => exact ⟨[], List.forall_mem_nil _, rfl, rfl, rfl⟩
  | some failure =>
      exact ⟨[(Event.aborted failure.line?).record], List.forall_mem_singleton.mpr ⟨rfl, rfl⟩,
        rfl, rfl, rfl⟩

/-- The records of a run are those of its lines, as far as a replay can tell, and one of the values
dropped. -/
theorem replay_records_ofSource {performances : List Performance}
    (h : (Machine.start sink).Recorded (body source sink) performances) :
    let records := (ofSource source sink).events.toList.map Event.record
    (Machine.start sink).replay records = ((body source sink).machine, performances) ∧
      List.Forall₂ Record.Describes (records.filter Record.isDispatch) performances ∧
      records.filter Record.isRelease =
        [(Event.released (body source sink).machine.sequence.length).record] := by
  obtain ⟨others, hsilent, hdispatches, hreleases, hrecords⟩ := exists_records_ofSource source sink
  have hrest := Machine.replay_of_none (m := (body source sink).machine)
    (List.forall_mem_cons.mpr ⟨⟨rfl, rfl⟩, hsilent⟩ : ∀ record ∈
      (Event.released (body source sink).machine.sequence.length).record :: others,
      record.mode? = none ∧ record.dispatched? = none)
  dsimp only
  rw [hrecords]
  refine ⟨?_, ?_, ?_⟩
  · rw [Machine.replay_append, h.replay_eq, hrest, List.append_nil]
  · rw [List.filter_append, List.filter_cons_of_neg Bool.false_ne_true, hdispatches,
      List.append_nil]
    exact h.describes
  · rw [List.filter_append, h.no_release, List.filter_cons_of_pos rfl, hreleases]
    rfl

/-- The records of a run, replayed by a new machine in front of an equal output. Every dispatch
tells the name of its instruction and the number of values that the replay holds before it; of the
instructions replayed only the last may fail; the replay writes what the run wrote and is left with
as many values as the run dropped. An instruction that fails does so for the reason that the run
reports; if none fails, a run that failed did so for a word that became no instruction or for its
flush. -/
theorem replay_of_records (source : String) (sink : Sink) :
    let run := ofSource source sink
    let records := run.events.toList.map Event.record
    let replayed := (Machine.start sink).replay records
    List.Forall₂ Record.Describes (records.filter Record.isDispatch) replayed.2 ∧
    (∀ performance ∈ replayed.2.dropLast, performance.failure? = none) ∧
    replayed.1.sink.written = run.output ∧
    (records.filter Record.isRelease).map (fun record => record.field? "released") =
      [some (Decimal.text replayed.1.sequence.length)] ∧
    (∀ performance, replayed.2.getLast? = some performance →
      ∀ failure, performance.failure? = some failure → run.failure? = some failure) ∧
    ((∀ performance ∈ replayed.2, performance.failure? = none) → run.status = 1 →
      ∃ failure, run.failure? = some failure ∧
        (failure.IsUnresolved ∨ failure = .output ∧ sink.failsFlush = true)) := by
  intro run records replayed
  obtain ⟨performances, hbody⟩ :=
    Machine.exists_recorded_runStatements (Machine.start sink) (Statement.numbered source)
  obtain ⟨hreplay, hdescribes, hreleases⟩ := replay_records_ofSource hbody
  have hends : Ends performances (body source sink).failure? := hbody.ends
  have hfailure : run.failure? = (body source sink).failure?.or
      (if sink.failsFlush then some .output else none) := failure?_ofSource source sink
  have hreplayed : replayed = ((body source sink).machine, performances) := hreplay
  rw [hreplayed]
  refine ⟨hdescribes, hends.dropLast, (output_ofSource source sink).symm, ?_, ?_, ?_⟩
  · rw [hreleases]
    rfl
  · intro performance hlast failure hperformance
    rw [hfailure, hends.getLast? hlast hperformance, Option.some_or]
  · intro hnone hstatus
    obtain ⟨failure, hrun⟩ := status_eq_one_iff.mp hstatus
    refine ⟨failure, hrun, ?_⟩
    rw [hfailure] at hrun
    cases hcause : (body source sink).failure? with
    | some cause =>
        rw [hcause] at hends hrun
        obtain rfl : cause = failure := by simpa using hrun
        exact Or.inl (hends.isUnresolved hnone)
    | none =>
        rw [hcause, Option.none_or] at hrun
        split at hrun
        · next hflush =>
            cases hrun
            exact Or.inr ⟨rfl, hflush⟩
        · cases hrun

end Run

end StackQueue
