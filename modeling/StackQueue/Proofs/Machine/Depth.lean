import StackQueue.Proofs.Machine.Progress
import StackQueue.Proofs.Reference.Simulation
import StackQueue.Proofs.Text.Cutting

/-!
# Counting values

How many values a program needs and leaves is told by its words alone. A run ends with the number
of values that its words leave, or fails where and as they say, unless it has failed before because
a divisor was zero or a value was no character.

## Implementation notes

The count knows no value, no mode and no machine, so two programs that are to be compared are each
compared with it.
-/

namespace StackQueue

namespace Opcode

/-- The number of values that an instruction must find. -/
def needs : Opcode → Nat
  | pint | pop | pchar => 1
  | swap | arith _ => 2
  | push | pall | nop | pstr | rotl | rotr => 0

/-- The complaint about too few values. -/
def shortage (line : Nat) : Opcode → Failure
  | pint => .emptyPint line
  | pop => .emptyPop line
  | pchar => .pcharEmpty line
  | opcode => .shortStack line opcode

/-- The number of values that an instruction leaves of `depth` ones. -/
def leaves (depth : Nat) : Opcode → Nat
  | push => depth + 1
  | pop | arith _ => depth - 1
  | pall | pint | nop | swap | pchar | pstr | rotl | rotr => depth

theorem line?_shortage (line : Nat) (opcode : Opcode) :
    (opcode.shortage line).line? = some line := by
  cases opcode <;> rfl

end Opcode

namespace Failure

/-- The line of a failure that comes from the value that an instruction finds. -/
def valueLine? : Failure → Option Nat
  | divisionByZero line | pcharRange line => some line
  | usage | cannotOpen _ | unknownInstruction _ _ | allocation | pushArgument _ | emptyPint _
  | emptyPop _ | shortStack _ _ | pcharEmpty _ | output => none

theorem line?_of_valueLine? {failure : Failure} {line : Nat} (h : failure.valueLine? = some line) :
    failure.line? = some line ∧ failure ≠ .output := by
  cases failure with
  | divisionByZero | pcharRange => exact ⟨h, Failure.noConfusion⟩
  | _ => cases h

end Failure

namespace Statement

/-- The word that a statement dispatches. Blank lines, mode lines and comments dispatch none. -/
def word? : Statement → Option String
  | .blank | .mode _ => none
  | .op word _ => if Instruction.isComment word then none else some word

/-- The value of the operand of a statement. -/
def value? : Statement → Option Int32
  | .blank | .mode _ => none
  | .op _ operand? => operand?.bind Operand.value?

/-- A statement that inserts a value if it is a `push`. -/
def Accepted (statement : Statement) : Prop :=
  statement.word? = some Opcode.push.name → statement.value?.isSome

theorem word?_of_comment {word : String} (h : Instruction.isComment word = true)
    (operand? : Option String) : word? (.op word operand?) = none :=
  if_pos h

theorem word?_of_not_comment {word : String} (h : Instruction.isComment word = false)
    (operand? : Option String) : word? (.op word operand?) = some word :=
  if_neg (ne_true_of_eq_false h)

end Statement

namespace Depth

/-- The number of values behind a word that is dispatched on `depth` values, or why it fails
whatever the values are. -/
def dispatch (line : Nat) (word : String) (depth : Nat) : Except Failure Nat :=
  match Opcode.ofName? word with
  | none => .error (.unknownInstruction line word)
  | some opcode =>
      if depth < opcode.needs then .error (opcode.shortage line) else .ok (opcode.leaves depth)

/-- The number of values behind a line that dispatches a word, or none. -/
def step (line : Nat) (word? : Option String) (depth : Nat) : Except Failure Nat :=
  match word? with
  | none => .ok depth
  | some word => dispatch line word depth

/-- The number of values behind lines that are numbered from `number` on. -/
def run (depth number : Nat) : List (Option String) → Except Failure Nat
  | [] => .ok depth
  | word? :: words =>
      match step number word? depth with
      | .error failure => .error failure
      | .ok depth => run depth (number + 1) words

variable {depth number line : Nat} {failure : Failure} {word? : Option String}
  {words : List (Option String)}

theorem run_cons_of_ok {count : Nat} (h : step number word? depth = .ok count) :
    run depth number (word? :: words) = run count (number + 1) words := by
  rw [run, h]

theorem run_cons_of_error (h : step number word? depth = .error failure) :
    run depth number (word? :: words) = .error failure := by
  rw [run, h]

theorem line?_of_step (h : step line word? depth = .error failure) :
    failure.line? = some line := by
  cases word? with
  | none => cases h
  | some word =>
      simp only [step, dispatch] at h
      split at h
      · cases h
        rfl
      · split at h
        · cases h
          exact Opcode.line?_shortage line _
        · cases h

/-- A count that fails blames one of its lines. -/
theorem exists_line?_of_run (h : run depth number words = .error failure) :
    ∃ line, failure.line? = some line ∧ number ≤ line := by
  induction words generalizing depth number with
  | nil => cases h
  | cons word? words ih =>
      cases hstep : step number word? depth with
      | error cause =>
          rw [run_cons_of_error hstep] at h
          cases h
          exact ⟨number, line?_of_step hstep, Nat.le_refl number⟩
      | ok count =>
          rw [run_cons_of_ok hstep] at h
          obtain ⟨line, hline, hle⟩ := ih h
          exact ⟨line, hline, Nat.le_of_succ_le hle⟩

end Depth

namespace Reference

variable {state : State} {line : Nat}

/-- An effect keeps to a count, or fails for a value that the count does not see. -/
def Tallies (line : Nat) (effect : Except Failure State) (count : Except Failure Nat) : Prop :=
  effect.map (fun after => after.values.length) = count ∨
    ∃ failure depth, effect = .error failure ∧ failure.valueLine? = some line ∧ count = .ok depth

theorem tallies_combine (op : Operator) (state : State) (line : Nat) :
    Tallies line (combine line op state)
      (if state.values.length < 2 then .error (.shortStack line (.arith op))
        else .ok (state.values.length - 1)) := by
  obtain ⟨mode, values, printed⟩ := state
  match values with
  | [] => exact Or.inl rfl
  | [_] => exact Or.inl rfl
  | front :: second :: rest =>
      simp only [combine]
      split
      · exact Or.inr ⟨.divisionByZero line, rest.length + 1, rfl, rfl, rfl⟩
      · exact Or.inl rfl

theorem tallies_pchar (state : State) (line : Nat) :
    Tallies line (pchar line state)
      (if state.values.length < 1 then .error (.pcharEmpty line)
        else .ok state.values.length) := by
  obtain ⟨mode, values, printed⟩ := state
  match values with
  | [] => exact Or.inl rfl
  | front :: rest =>
      simp only [pchar]
      split
      · exact Or.inr ⟨.pcharRange line, rest.length + 1, rfl, rfl, rfl⟩
      · exact Or.inl rfl

theorem length_rotateLeft (values : List Int32) : (rotateLeft values).length = values.length := by
  cases values with
  | nil => rfl
  | cons front rest => exact List.length_append

theorem length_rotateRight (values : List Int32) :
    (rotateRight values).length = values.length := by
  unfold rotateRight
  cases hlast : values.getLast? with
  | none => rw [List.getLast?_eq_none_iff.mp hlast]
  | some last =>
      obtain ⟨others, rfl⟩ := List.getLast?_eq_some_iff.mp hlast
      simp

theorem tallies_push {operand? : Option String} {value : Int32}
    (h : operand?.bind Operand.value? = some value) (state : State) (line : Nat) :
    Tallies line (push line operand? state) (.ok (state.values.length + 1)) := by
  rw [bind_value?] at h
  obtain ⟨mode, values, printed⟩ := state
  left
  cases mode with
  | stack => simp [push, h, Except.map, State.withValues]
  | queue => simp [push, h, Except.map, State.withValues]

/-- The instruction that an opcode names keeps to the count of this opcode. -/
theorem tallies_instruction (opcode : Opcode) {operand? : Option String}
    (h : opcode = .push → (operand?.bind Operand.value?).isSome) (state : State) (line : Nat) :
    Tallies line (instruction line opcode.name operand? state)
      (if state.values.length < opcode.needs then .error (opcode.shortage line)
        else .ok (opcode.leaves state.values.length)) := by
  cases opcode with
  | push =>
      obtain ⟨value, hvalue⟩ := Option.isSome_iff_exists.mp (h rfl)
      exact tallies_push hvalue state line
  | pall | nop | pstr => exact Or.inl rfl
  | pint | pop =>
      obtain ⟨mode, values, printed⟩ := state
      cases values <;> exact Or.inl rfl
  | swap =>
      obtain ⟨mode, values, printed⟩ := state
      match values with
      | [] => exact Or.inl rfl
      | [_] => exact Or.inl rfl
      | _ :: _ :: _ => exact Or.inl rfl
  | arith op =>
      cases op with
      | add => exact tallies_combine .add state line
      | sub => exact tallies_combine .sub state line
      | div => exact tallies_combine .div state line
      | mul => exact tallies_combine .mul state line
      | mod => exact tallies_combine .mod state line
  | pchar => exact tallies_pchar state line
  | rotl => exact Or.inl (congrArg Except.ok (length_rotateLeft state.values))
  | rotr => exact Or.inl (congrArg Except.ok (length_rotateRight state.values))

/-- A word keeps to its count. -/
theorem tallies_dispatch {word : String} {operand? : Option String}
    (hcomment : Instruction.isComment word = false)
    (hpush : word = Opcode.push.name → (operand?.bind Operand.value?).isSome)
    (state : State) (line : Nat) :
    Tallies line (dispatch line word operand? state)
      (Depth.dispatch line word state.values.length) := by
  have hfirst : ¬ word.toList.head? = some '#' := by
    simpa [Instruction.isComment] using hcomment
  rw [dispatch, if_neg hfirst, Depth.dispatch]
  cases hname : Opcode.ofName? word with
  | none =>
      left
      rw [instruction_of_ne_name line operand? state]
      · rfl
      · intro opcode hopcode
        rw [Opcode.ofName?_eq_some_iff.mpr hopcode] at hname
        cases hname
  | some opcode =>
      obtain rfl := Opcode.ofName?_eq_some_iff.mp hname
      refine tallies_instruction opcode ?_ state line
      rintro rfl
      exact hpush rfl

end Reference

namespace Outcome

/-- An outcome keeps to a count: it succeeds with that number of values or fails in that way,
unless a value has made it fail on an earlier line. -/
inductive KeepsTo (outcome : Outcome) : Except Failure Nat → Prop
  | succeeds (h : outcome.failure? = none) : KeepsTo outcome (.ok outcome.machine.sequence.length)
  | fails {failure : Failure} (h : outcome.failure? = some failure) :
      KeepsTo outcome (.error failure)
  | deviates {failure : Failure} {line : Nat} {count : Except Failure Nat}
      (h : outcome.failure? = some failure) (hvalue : failure.valueLine? = some line)
      (hlater : ∀ later, count = .error later →
        ∃ number, later.line? = some number ∧ line < number) : KeepsTo outcome count

variable {outcome : Outcome} {count : Except Failure Nat}

theorem KeepsTo.withEvents (h : outcome.KeepsTo count) (events : Array Event) :
    ({ outcome with events } : Outcome).KeepsTo count := by
  cases h with
  | succeeds h => exact .succeeds h
  | fails h => exact .fails h
  | deviates h hvalue hlater => exact .deviates h hvalue hlater

/-- An outcome that succeeds has as many values as the count says. -/
theorem KeepsTo.eq_of_success (h : outcome.KeepsTo count) (hsuccess : outcome.failure? = none) :
    count = .ok outcome.machine.sequence.length := by
  cases h with
  | succeeds => rfl
  | fails h | deviates h =>
      rw [hsuccess] at h
      cases h

/-- An outcome that fails, and not because of a value, fails as the count says. -/
theorem KeepsTo.eq_of_failure (h : outcome.KeepsTo count) {failure : Failure}
    (hfailure : outcome.failure? = some failure) (hvalue : failure.valueLine? = none) :
    count = .error failure := by
  cases h with
  | succeeds h =>
      rw [hfailure] at h
      cases h
  | fails h =>
      rw [hfailure, Option.some.injEq] at h
      rw [h]
  | deviates h hdeviates =>
      rw [hfailure, Option.some.injEq] at h
      rw [← h, hvalue] at hdeviates
      cases hdeviates

/-- Where the count succeeds, an outcome fails because of a value or not at all. -/
theorem KeepsTo.failure?_of_ok {depth : Nat} (h : outcome.KeepsTo (.ok depth)) :
    outcome.failure? = none ∨
      ∃ failure line, outcome.failure? = some failure ∧ failure.valueLine? = some line := by
  generalize hcount : Except.ok depth = count at h
  cases h with
  | succeeds h => exact .inl h
  | fails => cases hcount
  | deviates h hvalue => exact .inr ⟨_, _, h, hvalue⟩

/-- Where the count fails, an outcome fails in the same way, unless a value has made it fail on an
earlier line. -/
theorem KeepsTo.failure?_of_error {failure : Failure} {line : Nat}
    (h : outcome.KeepsTo (.error failure)) (hline : failure.line? = some line) :
    outcome.failure? = some failure ∨
      ∃ cause, ∃ earlier < line,
        outcome.failure? = some cause ∧ cause.valueLine? = some earlier := by
  cases h with
  | fails h => exact .inl h
  | deviates h hvalue hlater =>
      obtain ⟨number, hnumber, hlt⟩ := hlater failure rfl
      rw [hline, Option.some.injEq] at hnumber
      subst hnumber
      exact .inr ⟨_, _, hlt, h, hvalue⟩

end Outcome

namespace Machine

open Reference

variable {m : Machine} {state : State} {line number : Nat}

/-- The length of a sequence is the number of values in the state that its machine shows. -/
theorem length_of_shows (h : Shows m state) : m.sequence.length = state.values.length := by
  obtain ⟨slots, hrepresents⟩ := h.represents
  exact hrepresents.length_values.symm

theorem keepsTo_of_tallies {outcome : Outcome} {effect : Except Failure State}
    {count : Except Failure Nat} (h : Ends outcome (settle state effect))
    (htallies : Tallies line effect count) : outcome.KeepsTo count := by
  obtain ⟨hshows, hfailure⟩ := h
  rcases htallies with rfl | ⟨failure, depth, rfl, hvalue, rfl⟩
  · cases effect with
    | error failure => exact .fails hfailure
    | ok after =>
        have hkeeps := Outcome.KeepsTo.succeeds hfailure
        rw [length_of_shows hshows] at hkeeps
        exact hkeeps
  · refine .deviates hfailure hvalue ?_
    intro later hlater
    cases hlater

/-- A statement that dispatches no word succeeds and leaves the values alone. -/
theorem step_of_word?_eq_none {statement : Statement} (h : statement.word? = none) (line : Nat) :
    (m.step line statement).failure? = none ∧
      (m.step line statement).machine.sequence = m.sequence := by
  cases statement with
  | blank => exact ⟨rfl, rfl⟩
  | mode selected =>
      rw [step_mode]
      exact ⟨rfl, rfl⟩
  | op word operand? =>
      cases hcomment : Instruction.isComment word with
      | true =>
          rw [step, dispatch_of_comment (Instruction.resolve_eq_ok_none_iff.mpr hcomment)]
          exact ⟨rfl, rfl⟩
      | false =>
          rw [Statement.word?_of_not_comment hcomment] at h
          cases h

/-- A statement keeps to the count of its word. -/
theorem keepsTo_step (h : Shows m state) {statement : Statement} (haccepted : statement.Accepted)
    (line : Nat) :
    (m.step line statement).KeepsTo (Depth.step line statement.word? m.sequence.length) := by
  cases hword : statement.word? with
  | none =>
      obtain ⟨hsuccess, hsequence⟩ := step_of_word?_eq_none (m := m) hword line
      rw [Depth.step, ← hsequence]
      exact .succeeds hsuccess
  | some word =>
      cases statement with
      | blank => cases hword
      | mode selected => cases hword
      | op first operand? =>
          cases hcomment : Instruction.isComment first with
          | true =>
              rw [Statement.word?_of_comment hcomment] at hword
              cases hword
          | false =>
              rw [Statement.word?_of_not_comment hcomment, Option.some.injEq] at hword
              subst hword
              have hpush : first = Opcode.push.name → (operand?.bind Operand.value?).isSome := by
                intro hname
                apply haccepted
                rw [Statement.word?_of_not_comment hcomment, hname]
              rw [Depth.step, length_of_shows h]
              exact keepsTo_of_tallies (ends_dispatch h line first operand?)
                (tallies_dispatch hcomment hpush state line)

/-- Lines keep to the count of their words. -/
theorem keepsTo_runStatements (h : Shows m state) (number : Nat) {texts : List (List Char)}
    (haccepted : ∀ text ∈ texts, (Statement.ofLine text).Accepted) :
    (m.runStatements (Statement.numberedFrom number texts)).KeepsTo
      (Depth.run m.sequence.length number
        (texts.map fun text => (Statement.ofLine text).word?)) := by
  induction texts generalizing m state number with
  | nil => exact .succeeds rfl
  | cons text texts ih =>
      obtain ⟨hfirst, hrest⟩ := List.forall_mem_cons.mp haccepted
      obtain ⟨after, hafter⟩ := exists_shows_obey h (.step number (Statement.ofLine text))
      have hkeeps := keepsTo_step h hfirst number
      rw [Statement.numberedFrom_cons, runStatements_cons, List.map_cons]
      generalize hcount : Depth.step number (Statement.ofLine text).word? m.sequence.length =
        count at hkeeps
      cases hkeeps with
      | succeeds hsuccess =>
          rw [Depth.run_cons_of_ok hcount, Outcome.andThen_of_success _ hsuccess]
          exact (ih hafter (number + 1) hrest).withEvents _
      | fails hfailure =>
          rw [Depth.run_cons_of_error hcount, Outcome.andThen_of_failure hfailure]
          exact .fails hfailure
      | deviates hfailure hvalue hlater =>
          rw [Outcome.andThen_of_failure hfailure]
          refine .deviates hfailure hvalue ?_
          intro later hrun
          -- The value has made the first line fail, and a count that fails later names another.
          obtain ⟨hline, hne⟩ := Failure.line?_of_valueLine? hvalue
          rw [line?_of_step hfailure hne, Option.some.injEq] at hline
          cases count with
          | error failure =>
              rw [Depth.run_cons_of_error hcount] at hrun
              exact hlater later hrun
          | ok depth =>
              rw [Depth.run_cons_of_ok hcount] at hrun
              obtain ⟨number', hnumber, hle⟩ := Depth.exists_line?_of_run hrun
              exact ⟨number', hnumber, by omega⟩

end Machine

end StackQueue
