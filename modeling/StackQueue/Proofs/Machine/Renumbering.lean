import StackQueue.Proofs.Machine.Progress
import StackQueue.Proofs.Machine.Retelling
import StackQueue.Proofs.Text.Cutting

/-!
# Programs run in parts

The number of a line is told in failures and events and has no other effect. So a program can be
cut behind some of its newlines and run part by part, each part on the machine that the part before
it left. It ends as the whole program does, except that the numbers of lines start again with each
part.
-/

namespace StackQueue

namespace Failure

/-- The same failure of a line that stands `count` lines further down. -/
def movedDown (count : Nat) : Failure → Failure
  | usage => usage
  | cannotOpen path => cannotOpen path
  | unknownInstruction line word => unknownInstruction (line + count) word
  | allocation => allocation
  | pushArgument line => pushArgument (line + count)
  | emptyPint line => emptyPint (line + count)
  | emptyPop line => emptyPop (line + count)
  | shortStack line opcode => shortStack (line + count) opcode
  | divisionByZero line => divisionByZero (line + count)
  | pcharRange line => pcharRange (line + count)
  | pcharEmpty line => pcharEmpty (line + count)
  | output => output

theorem movedDown_zero (failure : Failure) : failure.movedDown 0 = failure := by
  cases failure <;> rfl

theorem movedDown_movedDown (failure : Failure) (first second : Nat) :
    (failure.movedDown first).movedDown second = failure.movedDown (second + first) := by
  cases failure <;> simp only [movedDown, Nat.add_assoc, Nat.add_comm first second]

end Failure

namespace Event

/-- The same event of a line that stands `count` lines further down. -/
def movedDown (count : Nat) : Event → Event
  | comment line => comment (line + count)
  | dispatch line instruction depth => dispatch (line + count) instruction depth
  | modeChanged mode => modeChanged mode
  | released number => released number
  | aborted line? => aborted (line?.map fun line => line + count)

theorem movedDown_zero (event : Event) : event.movedDown 0 = event := by
  cases event with
  | aborted line? => cases line? <;> rfl
  | _ => rfl

theorem movedDown_movedDown (event : Event) (first second : Nat) :
    (event.movedDown first).movedDown second = event.movedDown (second + first) := by
  cases event with
  | aborted line? =>
      cases line? <;> simp [movedDown, Nat.add_assoc, Nat.add_comm first second]
  | _ => simp only [movedDown, Nat.add_assoc, Nat.add_comm first second]

end Event

namespace Outcome

/-- The same outcome of lines that stand `count` lines further down. -/
def movedDown (count : Nat) (outcome : Outcome) : Outcome :=
  outcome.retell (Failure.movedDown count) fun event => some (event.movedDown count)

theorem movedDown_zero (outcome : Outcome) : outcome.movedDown 0 = outcome := by
  obtain ⟨m, failure?, events⟩ := outcome
  have hfailure : failure?.map (Failure.movedDown 0) = failure? := by
    cases failure? with
    | none => rfl
    | some failure => exact congrArg some failure.movedDown_zero
  simp only [movedDown, retell, hfailure, Event.movedDown_zero, Array.filterMap_some]

theorem movedDown_movedDown (outcome : Outcome) (first second : Nat) :
    (outcome.movedDown first).movedDown second = outcome.movedDown (second + first) := by
  obtain ⟨m, failure?, events⟩ := outcome
  simp only [movedDown, retell, Option.map_map, Function.comp_def, Failure.movedDown_movedDown,
    Array.filterMap_filterMap, Option.bind_some, Event.movedDown_movedDown]

end Outcome

/-! ### Line numbers have no effect -/

namespace Instruction

variable (line count : Nat)

theorem perform_add (instruction : Instruction) (mode : Mode) (s : Sequence) :
    instruction.perform mode (line + count) s =
      ((instruction.perform mode line s).1.mapError (Failure.movedDown count),
        (instruction.perform mode line s).2) := by
  cases instruction with
  | pall | nop | pstr | rotl | rotr => rfl
  | push | pint | pop | swap =>
      simp only [perform]
      split <;> rfl
  | arith op =>
      simp only [perform]
      split
      · rfl
      · split <;> rfl
  | pchar =>
      simp only [perform]
      split
      · rfl
      · split <;> rfl

theorem resolve_add (word : String) (operand? : Option String) :
    resolve word operand? (line + count) =
      (resolve word operand? line).mapError (Failure.movedDown count) := by
  unfold resolve
  split
  · rfl
  split
  · rfl
  split
  · rfl
  · unfold pushValue
    split <;> rfl

end Instruction

namespace Machine

variable (m : Machine) (line count : Nat)

theorem execute_add (instruction : Instruction) :
    m.execute (line + count) instruction = (m.execute line instruction).movedDown count := by
  have hadd := Instruction.perform_add line count instruction m.mode m.sequence
  cases hperform : (instruction.perform m.mode line m.sequence).1 with
  | error failure =>
      have hmoved : (instruction.perform m.mode (line + count) m.sequence).1 =
          .error (failure.movedDown count) := by
        rw [hadd, hperform]
        rfl
      rw [execute_of_error hperform, execute_of_error hmoved]
      rfl
  | ok printed =>
      have hmoved : (instruction.perform m.mode (line + count) m.sequence).1 = .ok printed := by
        rw [hadd, hperform]
        rfl
      cases hfits : m.sink.fits printed with
      | true =>
          rw [execute_of_fits hperform hfits, execute_of_fits hmoved hfits, hadd]
          rfl
      | false =>
          rw [execute_of_not_fits hperform hfits, execute_of_not_fits hmoved hfits]
          rfl

theorem dispatch_add (word : String) (operand? : Option String) :
    m.dispatch (line + count) word operand? =
      (m.dispatch line word operand?).movedDown count := by
  have hadd := Instruction.resolve_add line count word operand?
  cases hresolve : Instruction.resolve word operand? line with
  | error failure =>
      rw [hresolve] at hadd
      rw [dispatch_of_error hresolve, dispatch_of_error hadd]
      rfl
  | ok instruction? =>
      rw [hresolve] at hadd
      cases instruction? with
      | none =>
          rw [dispatch_of_comment hresolve, dispatch_of_comment hadd]
          rfl
      | some instruction =>
          rw [dispatch_of_instruction hresolve, dispatch_of_instruction hadd, execute_add]
          simp only [Outcome.after, Outcome.movedDown, Outcome.retell, events_execute]
          rfl

/-- A statement that stands further down does the same and tells the number of its line. -/
theorem step_add (statement : Statement) :
    m.step (line + count) statement = (m.step line statement).movedDown count := by
  cases statement with
  | blank => rfl
  | mode selected =>
      rw [step_mode, step_mode, Outcome.movedDown, Outcome.retell]
      split <;> rfl
  | op word operand? => exact dispatch_add m line count word operand?

/-- Statements that stand further down do the same and tell the numbers of their lines. -/
theorem runStatements_add (statements : List (Nat × Statement)) :
    m.runStatements (statements.map fun statement => (statement.1 + count, statement.2)) =
      (m.runStatements statements).movedDown count := by
  apply runStatements_of_retells
  rw [List.forall₂_map_right_iff, List.forall₂_same]
  intro statement _ m
  exact step_add m statement.1 count statement.2

end Machine

/-! ### Texts behind one another -/

namespace Machine

/-- The text of a program runs behind another one as it does alone, further down. -/
theorem runSource_append (m : Machine) {first : String} (h : Text.EndsLine first)
    (second : String) :
    m.runSource (first ++ second) = (m.runSource first).andThen fun m =>
      (m.runSource second).movedDown (Text.newlines first) := by
  rw [runSource, Statement.numbered_append h, runStatements_append]
  simp only [runStatements_add]
  rfl

/-- Run the parts of a program one after the other up to the first failure. Above the first part
there are `above` lines. -/
def runParts (m : Machine) (above : Nat) : List String → Outcome
  | [] => m.done
  | part :: parts =>
      ((m.runSource part).movedDown above).andThen fun m =>
        m.runParts (above + Text.newlines part) parts

/-- The parts of a program, each but the last ended by a newline, run below `above` lines as the
whole program does there. -/
theorem runParts_eq (m : Machine) (above : Nat) {parts : List String}
    (h : ∀ part ∈ parts.dropLast, Text.EndsLine part) :
    m.runParts above parts = (m.runSource (String.join parts)).movedDown above := by
  induction parts generalizing m above with
  | nil => rfl
  | cons part parts ih =>
      rw [runParts, String.join_cons]
      cases parts with
      | nil => simpa only [runParts, String.join_nil, String.append_empty] using
          Outcome.andThen_done ((m.runSource part).movedDown above)
      | cons next parts =>
          rw [List.dropLast_cons_cons] at h
          obtain ⟨hpart, hrest⟩ := List.forall_mem_cons.mp h
          calc ((m.runSource part).movedDown above).andThen (fun m =>
                m.runParts (above + Text.newlines part) (next :: parts)) =
              ((m.runSource part).movedDown above).andThen fun m =>
                ((m.runSource (String.join (next :: parts))).movedDown
                  (Text.newlines part)).movedDown above := by
                simp only [ih _ _ hrest, Outcome.movedDown_movedDown]
            _ = ((m.runSource part).andThen fun m =>
                  (m.runSource (String.join (next :: parts))).movedDown
                    (Text.newlines part)).movedDown above :=
                (Outcome.retell_andThen _ _ _ _).symm
            _ = (m.runSource (part ++ String.join (next :: parts))).movedDown above := by
                rw [runSource_append m hpart]

/-- Behind a text whose lines are all ended, another text runs on the machine that the first one
leaves, and only if the first one succeeds; the whole ends as the second one does there, with the
numbers of its lines counted from the end of the first. So a program that is cut behind any of its
newlines can be run part by part. -/
theorem runs_part_by_part (m : Machine) :
    (∀ first second : String, Text.EndsLine first →
      m.runSource (first ++ second) = (m.runSource first).andThen fun m =>
        (m.runSource second).movedDown (Text.newlines first)) ∧
    ∀ parts : List String, (∀ part ∈ parts.dropLast, Text.EndsLine part) →
      m.runSource (String.join parts) = m.runParts 0 parts := by
  refine ⟨fun first second h => runSource_append m h second, ?_⟩
  intro parts h
  rw [runParts_eq m 0 h, Outcome.movedDown_zero]

/-- The mode of the first part is in force in the second, and a line of the last part is blamed by
its number in the whole program. -/
theorem runs_part_by_part_queue :
    let first := "queue\npush 1\n"
    let parts := [first, "push 0\n", "swap\n", "div"]
    Text.EndsLine first ∧ (∀ part ∈ parts.dropLast, Text.EndsLine part) ∧
      ((start (Sink.fresh (some 3) false)).runSource
        (first ++ "push 2\ndiv\npint\npchar")).failure? = some .output ∧
      ((start Sink.unbounded).runSource (String.join parts)).failure? =
        some (.divisionByZero 5) := by
  intro first parts
  have hfirst : Text.EndsLine first := Or.inr (by decide)
  have hparts : ∀ part ∈ parts.dropLast, Text.EndsLine part := by
    simp only [parts, List.dropLast_cons_cons, List.dropLast_singleton, List.forall_mem_cons]
    exact ⟨hfirst, Or.inr (by decide), Or.inr (by decide), List.forall_mem_nil _⟩
  refine ⟨hfirst, hparts, ?_, ?_⟩
  · rw [(runs_part_by_part _).1 _ _ hfirst]
    decide +kernel
  · rw [(runs_part_by_part _).2 _ hparts]
    decide +kernel

end Machine

end StackQueue
