import StackQueue.Proofs.Machine.Listing
import StackQueue.Proofs.Reference.Instructions

/-!
# Insertions at both ends

A program that only inserts values and puts modes in force, in any order, and prints all values in
the end. It prints the values inserted in stack mode, the last one first, and behind them the
values inserted in queue mode, in order.
-/

namespace StackQueue

/-- What the lines of a program ask for that only inserts values and puts modes in force. -/
inductive Entry where
  | insert (value : Int32)
  | select (mode : Mode)
  deriving DecidableEq

namespace Entry

def action : Entry → Action
  | insert value => .perform (.push value)
  | select mode => .select mode

/-- The values that are inserted while the wanted mode is in force, in the order of insertion. -/
def insertedIn (wanted : Mode) : Mode → List Entry → List Int32
  | _, [] => []
  | inForce, insert value :: entries =>
      if inForce = wanted then
        value :: insertedIn wanted inForce entries
      else
        insertedIn wanted inForce entries
  | _, select mode :: entries => insertedIn wanted mode entries

end Entry

namespace Machine

variable {m : Machine} {slots : List Nat} {values : List Int32}

/-- The machine after an entry. -/
def enter (m : Machine) : Entry → Machine
  | .insert value => { m with sequence := m.sequence.push m.mode value }
  | .select mode => { m with mode := mode }

open Unobserved in
/-- Entries never fail, whatever the output. -/
theorem forget_act_entry (m : Machine) (line : Nat) (entry : Entry) :
    forget (m.act line entry.action) = (m.enter entry, none) := by
  cases entry with
  | insert value =>
      rw [Entry.action, act, execute_push]
      rfl
  | select mode => exact congrArg forget (step_mode m line mode)

/-- Entries are carried out one after the other, and then what follows them. -/
theorem actEach_entries (m : Machine) (number : Nat) (entries : List Entry)
    (actions : List Action) :
    m.actEach number (entries.map Entry.action ++ actions) =
      (entries.foldl enter m).actEach (number + entries.length) actions := by
  induction entries generalizing m number with
  | nil => rfl
  | cons entry entries ih =>
      rw [List.map_cons, List.cons_append, actEach, forget_act_entry]
      simp only [ih, List.foldl_cons, List.length_cons, Nat.add_right_comm, Nat.add_assoc]

theorem sink_foldl_enter (m : Machine) (entries : List Entry) :
    (entries.foldl enter m).sink = m.sink := by
  induction entries generalizing m with
  | nil => rfl
  | cons entry entries ih =>
      rw [List.foldl_cons, ih]
      cases entry <;> rfl

/-- Values inserted in stack mode pile up in front of those that were there, and values inserted in
queue mode line up behind them. -/
theorem represents_foldl_enter (h : m.sequence.Represents slots values) (entries : List Entry) :
    ∃ slots, (entries.foldl enter m).sequence.Represents slots
      ((Entry.insertedIn .stack m.mode entries).reverse ++ values ++
        Entry.insertedIn .queue m.mode entries) := by
  -- An entry may change the mode as well as the values, so the machine has to be any.
  induction entries generalizing m slots values with
  | nil => exact ⟨slots, by simpa [Entry.insertedIn] using h⟩
  | cons entry entries ih =>
      cases entry with
      | select mode => exact ih (m := m.enter (.select mode)) h
      | insert value =>
          obtain ⟨mode, s, sink⟩ := m
          cases mode with
          | stack =>
              have hrest := ih (m := ⟨.stack, s.pushFront value, sink⟩) (h.pushFront value)
              simpa [enter, Entry.insertedIn] using hrest
          | queue =>
              have hrest := ih (m := ⟨.queue, s.pushBack value, sink⟩) (h.pushBack value)
              simpa [enter, Entry.insertedIn] using hrest

/-- On a new machine, the values of either mode are on their side of nothing. -/
theorem toList_foldl_enter_start (sink : Sink) (entries : List Entry) :
    (entries.foldl enter (start sink)).sequence.toList =
      (Entry.insertedIn .stack .stack entries).reverse ++
        Entry.insertedIn .queue .stack entries := by
  obtain ⟨slots, h⟩ :=
    represents_foldl_enter (m := start sink) Sequence.represents_empty entries
  rw [h.toList_eq, List.append_nil]
  rfl

theorem actEach_pall (hwide : m.sink.limit = none) (number : Nat) :
    m.actEach number [.perform .pall] = ({ m with sink :=
      { m.sink with written := m.sink.written ++ m.sequence.toList.flatMap Printed.decimal } },
      none) := by
  rw [actEach, act, execute_pall hwide]
  rfl

end Machine

namespace Run

/-- A program that inserts values in either mode, changes the mode between them at will and prints
all values in its last line succeeds. It prints the values inserted in stack mode, the last one
first, and then the values inserted in queue mode, the first one first. -/
theorem answer_of_insertions {source : String} {entries : List Entry}
    (h : Statement.asked (Statement.numbered source) =
      (entries.map Entry.action ++ [Action.perform .pall]).map fun action => .ok (some action)) :
    (ofSource source Sink.unbounded).answer =
      ⟨0, ((Entry.insertedIn .stack .stack entries).reverse ++
        Entry.insertedIn .queue .stack entries).flatMap Reference.decimalLine, ""⟩ := by
  let after := entries.foldl Machine.enter (Machine.start Sink.unbounded)
  have hsink : after.sink = Sink.unbounded := Machine.sink_foldl_enter _ entries
  have hwide : after.sink.limit = none := congrArg Sink.limit hsink
  have hvalues : after.sequence.toList = _ :=
    Machine.toList_foldl_enter_start Sink.unbounded entries
  rw [Unobserved.answer_ofSource, Unobserved.run, Machine.runLines_of_asks h,
    Machine.actEach_entries, Machine.actEach_pall hwide]
  simp only [Unobserved.report, hsink, hvalues, Reference.flatMap_decimal]
  simp [Sink.unbounded, Sink.fresh]

/-- Both modes by turns, on lines of every shape that is accepted. -/
theorem answer_of_insertions_by_turns :
    let source := "push 1\n\tqueue \npush -02 x\r\nstack\npush 2147483647\nqueue 5\npush -\npall"
    let entries : List Entry := [.insert 1, .select .queue, .insert (-2), .select .stack,
      .insert 2147483647, .select .queue, .insert 0]
    Statement.asked (Statement.numbered source) =
      ((entries.map Entry.action ++ [Action.perform .pall]).map fun action =>
        .ok (some action)) ∧
    (ofSource source Sink.unbounded).answer =
      ⟨0, Reference.octets "2147483647\n1\n-2\n0\n", ""⟩ := by
  intro source entries
  have hasked : Statement.asked (Statement.numbered source) =
      (entries.map Entry.action ++ [Action.perform .pall]).map fun action => .ok (some action) := by
    decide +kernel
  exact ⟨hasked, (answer_of_insertions hasked).trans (by decide +kernel)⟩

end Run

end StackQueue
