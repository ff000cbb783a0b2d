import StackQueue.Machine.Session
import StackQueue.Proofs.Machine.Execution
import StackQueue.Proofs.Reference.Instructions
import StackQueue.Proofs.Reference.Reading

/-!
# Programs on machines and on lists

A machine whose output takes everything runs every program text as the reference does. After any
session, a run ends with the mode, the values, the octets and the failure with which the reference
ends.

## Implementation notes

`Shows` relates a machine to a state. It holds at the start and every command of a session keeps
it, whether the command fails or not.
-/

namespace StackQueue.Reference

variable {m : Machine} {state after : State} {outcome : Outcome} {failure : Failure}

/-- A machine with an output that takes everything is in a given state. -/
structure Shows (m : Machine) (state : State) : Prop where
  limit_eq : m.sink.limit = none
  mode_eq : m.mode = state.mode
  represents : ∃ slots, m.sequence.Represents slots state.values
  written_eq : m.sink.written.toList = state.printed

/-- The state of a machine as far as a program can tell. -/
def observe (m : Machine) : State :=
  ⟨m.mode, m.sequence.toList, m.sink.written.toList⟩

theorem Shows.observe_eq (h : Shows m state) : observe m = state := by
  obtain ⟨slots, hrepresents⟩ := h.represents
  rw [observe, h.mode_eq, hrepresents.toList_eq, h.written_eq]

theorem shows_start (failsFlush : Bool) :
    Shows (Machine.start (Sink.fresh none failsFlush)) ⟨.stack, [], []⟩ :=
  ⟨rfl, rfl, ⟨[], Sequence.represents_empty⟩, rfl⟩

/-- A step ends in a state and with a failure, if there is one. -/
def Ends (outcome : Outcome) (result : State × Option Failure) : Prop :=
  Shows outcome.machine result.1 ∧ outcome.failure? = result.2

/-- A failed step is a failed run. -/
theorem Ends.andThen_error (h : Ends outcome (state, some failure)) (next : Machine → Outcome) :
    Ends (outcome.andThen next) (state, some failure) := by
  rw [Outcome.andThen_of_failure h.2]
  exact h

/-- A run goes on where a step ended. -/
theorem Ends.andThen_ok {next : Machine → Outcome} {result : State × Option Failure}
    (h : Ends outcome (state, none)) (hnext : ∀ m, Shows m state → Ends (next m) result) :
    Ends (outcome.andThen next) result := by
  obtain ⟨m, failure?, events⟩ := outcome
  obtain ⟨hshows, hfailure⟩ := h
  cases hfailure
  exact hnext m hshows

theorem ends_execute {line : Nat} {instruction : Instruction} {effect : Except Failure State}
    (h : Shows m state)
    (hfollows : Follows (instruction.perform m.mode line m.sequence) state effect) :
    Ends (m.execute line instruction) (settle state effect) := by
  cases effect with
  | error failure =>
      rw [Machine.execute_of_error hfollows]
      exact ⟨h, rfl⟩
  | ok after =>
      obtain ⟨printed, slots, values, hok, hrepresents, rfl⟩ := hfollows
      have hfits : m.sink.fits printed = true := by
        rw [Sink.fits, h.limit_eq]
      rw [Machine.execute_of_fits hok hfits]
      refine ⟨⟨h.limit_eq, h.mode_eq, ⟨slots, hrepresents⟩, ?_⟩, rfl⟩
      change (m.sink.written ++ printed).toList = state.printed ++ printed
      rw [Array.toList_appendList, h.written_eq]

theorem ends_dispatch (h : Shows m state) (line : Nat) (word : String)
    (operand? : Option String) :
    Ends (m.dispatch line word operand?) (settle state (dispatch line word operand? state)) := by
  obtain ⟨slots, hrepresents⟩ := h.represents
  have hresolves := resolves hrepresents line word operand?
  unfold Machine.dispatch
  cases hresolve : Instruction.resolve word operand? line with
  | error failure =>
      rw [hresolve] at hresolves
      have heffect : dispatch line word operand? state = .error failure := hresolves
      rw [heffect]
      exact ⟨h, rfl⟩
  | ok instruction? =>
      rw [hresolve] at hresolves
      cases instruction? with
      | none =>
          have heffect : dispatch line word operand? state = .ok state := hresolves
          rw [heffect]
          exact ⟨h, rfl⟩
      | some instruction =>
          refine ends_execute h ?_
          rw [h.mode_eq]
          exact hresolves

theorem ends_setMode (h : Shows m state) (mode : Mode) :
    Ends (m.setMode mode) ({ state with mode }, none) := by
  unfold Machine.setMode
  split
  · next hmode => exact ⟨⟨h.limit_eq, hmode, h.represents, h.written_eq⟩, rfl⟩
  · exact ⟨⟨h.limit_eq, rfl, h.represents, h.written_eq⟩, rfl⟩

/-- A line has the effect of its text. -/
theorem ends_line (h : Shows m state) (number : Nat) (text : List Char) :
    Ends (m.step number (Statement.ofLine text)) (settle state (line number text state)) := by
  unfold Statement.ofLine line
  rw [tokens_eq]
  cases htoken : nextToken? text with
  | none => exact ⟨h, rfl⟩
  | some next =>
      obtain ⟨token, rest⟩ := next
      simp only [List.map_cons, Statement.ofTokens, List.head?_map, head?_tokens,
        Option.map_map]
      generalize String.ofList token = word
      cases hmode : Mode.ofName? word with
      | some mode =>
          obtain rfl := Mode.ofName?_eq_some_iff.mp hmode
          cases mode with
          | stack => exact ends_setMode h .stack
          | queue => exact ends_setMode h .queue
      | none =>
          have hne (mode : Mode) : mode.name ≠ word := by
            intro hname
            rw [Mode.ofName?_eq_some_iff.mpr hname] at hmode
            cases hmode
          dsimp only
          split
          · exact absurd rfl (hne .stack)
          · exact absurd rfl (hne .queue)
          · exact ends_dispatch h number word _

/-- Numbered lines are run one after the other up to the first failure. -/
theorem ends_runLines (h : Shows m state) (number : Nat) (texts : List (List Char)) :
    Ends
      (m.runStatements
        ((texts.zipIdx number).map fun entry => (entry.2, Statement.ofLine entry.1)))
      (runLines state number texts) := by
  induction texts generalizing m state number with
  | nil => exact ⟨h, rfl⟩
  | cons text texts ih =>
      have hline := ends_line h number text
      rw [List.zipIdx_cons, List.map_cons, Machine.runStatements_cons, runLines]
      cases heffect : line number text state with
      | error failure =>
          rw [heffect] at hline
          exact hline.andThen_error _
      | ok after =>
          rw [heffect] at hline
          exact hline.andThen_ok fun m hm => ih hm (number + 1)

theorem ends_runSource (h : Shows m state) (source : String) :
    Ends (m.runSource source) (run state source) := by
  unfold Machine.runSource Statement.numbered run
  rw [text_lines_eq]
  exact ends_runLines h 1 _

/-- Every command leaves a machine that is in some state, also where it fails. -/
theorem exists_shows_obey (h : Shows m state) (command : Command) :
    ∃ after, Shows (m.obey command).machine after := by
  cases command with
  | dispatch line word operand? => exact ⟨_, (ends_dispatch h line word operand?).1⟩
  | step line statement =>
      cases statement with
      | blank => exact ⟨state, h⟩
      | mode mode => exact ⟨_, (ends_setMode h mode).1⟩
      | op word operand? => exact ⟨_, (ends_dispatch h line word operand?).1⟩
  | runSource source => exact ⟨_, (ends_runSource h source).1⟩
  | setMode mode => exact ⟨_, (ends_setMode h mode).1⟩

theorem exists_shows_afterSession (h : Shows m state) (commands : List Command) :
    ∃ after, Shows (m.afterSession commands) after := by
  induction commands generalizing m state with
  | nil => exact ⟨state, h⟩
  | cons command commands ih =>
      obtain ⟨after, hafter⟩ := exists_shows_obey h command
      exact ih hafter

/-- After any session, a program text that runs in front of an output that takes everything ends as
the reference ends. -/
theorem runSource_eq_run (failsFlush : Bool) (commands : List Command) (source : String) :
    let m := (Machine.start (Sink.fresh none failsFlush)).afterSession commands
    let outcome := m.runSource source
    (observe outcome.machine, outcome.failure?) = run (observe m) source := by
  intro m outcome
  obtain ⟨state, hstate⟩ := exists_shows_afterSession (shows_start failsFlush) commands
  obtain ⟨hmachine, hfailure⟩ := ends_runSource hstate source
  rw [hstate.observe_eq, hmachine.observe_eq, hfailure]

example : run ⟨.stack, [], []⟩ "push 3\nqueue\npush 4\nrotl\npall\npop\npop\npop" =
    (⟨.queue, [], [52, 10, 51, 10]⟩, some (.emptyPop 8)) := by decide +kernel

end StackQueue.Reference
