import Mathlib.Data.List.Basic
import StackQueue.Proofs.Run.Unobserved

/-!
# The events of a run, line by line

Every line of a program adds its own part to the events of a run, which its tokens, its number and
the mode in force determine up to the values that an instruction finds. The parts end with the line
that fails. Behind them stand the number of values dropped and, if the run failed, the line that is
blamed.

## Implementation notes

`Told` follows the lines of a program and not the machine, and says of each line what it must tell.
What is true of all events together, that line numbers increase and modes alternate, is derived
from it.
-/

namespace StackQueue

namespace Event

/-- The number of the line that a comment or an instruction stands on. -/
def line? : Event → Option Nat
  | comment line | dispatch line _ _ => some line
  | modeChanged _ | released _ | aborted _ => none

/-- The mode that is put in force. -/
def mode? : Event → Option Mode
  | modeChanged mode => some mode
  | comment _ | dispatch _ _ _ | released _ | aborted _ => none

/-- Whether an event is told by a line of a program. -/
def isOfLine : Event → Bool
  | comment _ | dispatch _ _ _ | modeChanged _ => true
  | released _ | aborted _ => false

end Event

/-- What a line that is carried out tells. It is given by its tokens. -/
inductive Tells (mode : Mode) (number : Nat) : List (List Char) → List Event → Prop
  | blank : Tells mode number [] []
  | comment {word : List Char} {others : List (List Char)} (h : word.head? = some '#') :
      Tells mode number (word :: others) [.comment number]
  | instruction {word : List Char} {others : List (List Char)} {instruction : Instruction}
      {depth : Nat} (h : String.ofList word = instruction.opcode.name)
      (hresolve : Instruction.resolve (String.ofList word) (others.head?.map String.ofList) number =
        .ok (some instruction)) :
      Tells mode number (word :: others) [.dispatch number instruction depth]
  | selected {word : List Char} {others : List (List Char)} {selected : Mode}
      (h : String.ofList word = selected.name) (hne : selected ≠ mode) :
      Tells mode number (word :: others) [.modeChanged selected]
  | kept {word : List Char} {others : List (List Char)} (h : String.ofList word = mode.name) :
      Tells mode number (word :: others) []

/-- What a line that fails tells: its instruction, if its words resolve to one. -/
inductive TellsLast (number : Nat) : List (List Char) → List Event → Prop
  | resolved {word : List Char} {others : List (List Char)} {instruction : Instruction}
      {depth : Nat}
      (h : Instruction.resolve (String.ofList word) (others.head?.map String.ofList) number =
        .ok (some instruction)) :
      TellsLast number (word :: others) [.dispatch number instruction depth]
  | unresolved {word : List Char} {others : List (List Char)} {failure : Failure}
      (h : Instruction.resolve (String.ofList word) (others.head?.map String.ofList) number =
        .error failure) :
      TellsLast number (word :: others) []

/-- The mode in force behind a line, which is given by its tokens. -/
def modeBehind (mode : Mode) (tokens : List (List Char)) : Mode :=
  (tokens.head?.bind fun word => Mode.ofName? (String.ofList word)).getD mode

/-- What the lines from `number` on tell, one part for each line up to the one that fails, if one
does. -/
inductive Told : Mode → Nat → List (List Char) → List (List Event) → Option Nat → Prop
  | finished {mode : Mode} {number : Nat} : Told mode number [] [] none
  | stopped {mode : Mode} {number : Nat} {text : List Char} {texts : List (List Char)}
      {part : List Event} (h : TellsLast number (Text.tokens text) part) :
      Told mode number (text :: texts) [part] (some number)
  | carriedOut {mode : Mode} {number : Nat} {text : List Char} {texts : List (List Char)}
      {part : List Event} {parts : List (List Event)} {stop? : Option Nat}
      (h : Tells mode number (Text.tokens text) part)
      (tail : Told (modeBehind mode (Text.tokens text)) (number + 1) texts parts stop?) :
      Told mode number (text :: texts) (part :: parts) stop?

/-! ### What the parts have in common -/

section Parts

variable {mode : Mode} {number : Nat} {tokens texts : List (List Char)} {part : List Event}
  {parts : List (List Event)} {stop? : Option Nat}

theorem Tells.isOfLine (h : Tells mode number tokens part) :
    ∀ event ∈ part, event.isOfLine = true := by
  cases h with
  | blank | kept => exact List.forall_mem_nil _
  | comment | instruction | selected => exact List.forall_mem_singleton.mpr rfl

theorem TellsLast.isOfLine (h : TellsLast number tokens part) :
    ∀ event ∈ part, event.isOfLine = true := by
  cases h with
  | resolved => exact List.forall_mem_singleton.mpr rfl
  | unresolved => exact List.forall_mem_nil _

theorem Told.isOfLine (h : Told mode number texts parts stop?) :
    ∀ event ∈ parts.flatten, event.isOfLine = true := by
  induction h with
  | finished => exact List.forall_mem_nil _
  | stopped h =>
      rw [List.flatten_singleton]
      exact h.isOfLine
  | carriedOut h _ ih =>
      rw [List.flatten_cons]
      exact List.forall_mem_append.mpr ⟨h.isOfLine, ih⟩

/-- A line tells at most one number, its own. -/
theorem Tells.lines (h : Tells mode number tokens part) :
    part.filterMap Event.line? = [] ∨ part.filterMap Event.line? = [number] := by
  cases h with
  | blank | kept | selected => exact Or.inl rfl
  | comment | instruction => exact Or.inr rfl

theorem TellsLast.lines (h : TellsLast number tokens part) :
    part.filterMap Event.line? = [] ∨ part.filterMap Event.line? = [number] := by
  cases h with
  | unresolved => exact Or.inl rfl
  | resolved => exact Or.inr rfl

/-- Line numbers are not below the number of the first line, and increase. -/
theorem Told.lines (h : Told mode number texts parts stop?) :
    (∀ line ∈ parts.flatten.filterMap Event.line?, number ≤ line) ∧
      (parts.flatten.filterMap Event.line?).Pairwise (· < ·) := by
  induction h with
  | finished => exact ⟨List.forall_mem_nil _, .nil⟩
  | stopped h =>
      rw [List.flatten_singleton]
      rcases h.lines with h | h <;> simp [h]
  | carriedOut h _ ih =>
      obtain ⟨hbound, hsorted⟩ := ih
      rw [List.flatten_cons, List.filterMap_append]
      rcases h.lines with h | h
      · rw [h]
        exact ⟨fun line hline => Nat.le_of_succ_le (hbound line hline), hsorted⟩
      · rw [h]
        refine ⟨?_, List.pairwise_cons.mpr ⟨hbound, hsorted⟩⟩
        exact List.forall_mem_cons.mpr
          ⟨Nat.le_refl _, fun line hline => Nat.le_of_succ_le (hbound line hline)⟩

/-- A comment names no mode. -/
theorem ofName?_of_comment {word : List Char} (h : word.head? = some '#') :
    Mode.ofName? (String.ofList word) = none := by
  cases hmode : Mode.ofName? (String.ofList word) with
  | none => rfl
  | some selected =>
      have hname := congrArg String.toList (Mode.ofName?_eq_some_iff.mp hmode)
      rw [String.toList_ofList] at hname
      rw [← hname] at h
      cases selected <;> exact absurd h (by decide)

/-- An opcode names no mode. -/
theorem ofName?_name (opcode : Opcode) : Mode.ofName? opcode.name = none :=
  (by decide : ∀ opcode ∈ Opcode.all, Mode.ofName? opcode.name = none) opcode
    (Opcode.mem_all opcode)

theorem modeBehind_cons (mode : Mode) (word : List Char) (others : List (List Char)) :
    modeBehind mode (word :: others) = (Mode.ofName? (String.ofList word)).getD mode := rfl

/-- A line tells of a mode only if it is another one than before, which it leaves in force. -/
theorem Tells.modes (h : Tells mode number tokens part) :
    (part.filterMap Event.mode? = [] ∧ modeBehind mode tokens = mode) ∨
      ∃ selected, selected ≠ mode ∧ part.filterMap Event.mode? = [selected] ∧
        modeBehind mode tokens = selected := by
  cases h with
  | blank => exact Or.inl ⟨rfl, rfl⟩
  | comment h =>
      refine Or.inl ⟨rfl, ?_⟩
      rw [modeBehind_cons, ofName?_of_comment h, Option.getD_none]
  | instruction h _ =>
      refine Or.inl ⟨rfl, ?_⟩
      rw [modeBehind_cons, h, ofName?_name, Option.getD_none]
  | selected h hne =>
      refine Or.inr ⟨_, hne, rfl, ?_⟩
      rw [modeBehind_cons, Mode.ofName?_eq_some_iff.mpr h.symm, Option.getD_some]
  | kept h =>
      refine Or.inl ⟨rfl, ?_⟩
      rw [modeBehind_cons, Mode.ofName?_eq_some_iff.mpr h.symm, Option.getD_some]

theorem TellsLast.modes (h : TellsLast number tokens part) :
    part.filterMap Event.mode? = [] := by
  cases h <;> rfl

/-- Every mode that is told of is another one than the mode before it. -/
theorem Told.modes (h : Told mode number texts parts stop?) :
    (mode :: parts.flatten.filterMap Event.mode?).IsChain (· ≠ ·) := by
  induction h with
  | finished => exact .singleton _
  | stopped h =>
      rw [List.flatten_singleton, h.modes]
      exact .singleton _
  | carriedOut h _ ih =>
      rw [List.flatten_cons, List.filterMap_append]
      rcases h.modes with ⟨h, hmode⟩ | ⟨selected, hne, h, hmode⟩
      · rw [h, List.nil_append]
        rwa [hmode] at ih
      · rw [h, List.singleton_append, List.isChain_cons_cons]
        rw [hmode] at ih
        exact ⟨hne.symm, ih⟩

/-- There are two modes, so modes that differ from one to the next alternate. -/
theorem getElem?_of_isChain {modes : List Mode} (h : (mode :: modes).IsChain (· ≠ ·))
    {index : Nat} {selected : Mode} (hindex : modes[index]? = some selected) :
    selected = mode ↔ index % 2 = 1 := by
  induction modes generalizing mode index with
  | nil => cases hindex
  | cons first modes ih =>
      obtain ⟨hne, htail⟩ := List.isChain_cons_cons.mp h
      cases index with
      | zero =>
          obtain rfl : first = selected := by simpa using hindex
          simpa using hne.symm
      | succ index =>
          have hfirst := ih htail (by simpa using hindex)
          have hother : selected = mode ↔ ¬ selected = first := by
            cases selected <;> cases mode <;> cases first <;> simp_all
          rw [hother, hfirst]
          omega

/-- Modes that are told of from stack mode on alternate and start with queue mode. -/
theorem Told.alternates (h : Told .stack number texts parts stop?) {index : Nat} {selected : Mode}
    (hindex : (parts.flatten.filterMap Event.mode?)[index]? = some selected) :
    selected = if index % 2 = 0 then .queue else .stack := by
  have hiff := getElem?_of_isChain h.modes hindex
  cases selected with
  | stack => rw [if_neg (by have := hiff.mp rfl; omega)]
  | queue =>
      rw [if_pos]
      have hne : ¬ index % 2 = 1 := fun hodd => Mode.noConfusion (hiff.mpr hodd)
      omega

end Parts

/-! ### What the lines of a run tell -/

namespace Machine

/-- The number of the line at which a machine fails, if it does. -/
def stop? (m : Machine) : List (Nat × Statement) → Option Nat
  | [] => none
  | (line, statement) :: statements =>
      let outcome := m.step line statement
      match outcome.failure? with
      | some _ => some line
      | none => outcome.machine.stop? statements

variable {m : Machine} {line number : Nat} {statement : Statement} {failure : Failure}
  {statements : List (Nat × Statement)}

theorem stop?_cons_of_failure (h : (m.step line statement).failure? = some failure) :
    m.stop? ((line, statement) :: statements) = some line := by
  rw [stop?, h]

theorem stop?_cons_of_success (h : (m.step line statement).failure? = none) :
    m.stop? ((line, statement) :: statements) =
      (m.step line statement).machine.stop? statements := by
  rw [stop?, h]

/-- A machine stops exactly where its run fails. A failure that is not one of the output blames
this line. -/
theorem stop?_spec (m : Machine) (statements : List (Nat × Statement)) :
    (m.stop? statements = none ↔ (m.runStatements statements).failure? = none) ∧
      ∀ failure, (m.runStatements statements).failure? = some failure → failure ≠ .output →
        failure.line? = m.stop? statements := by
  induction statements generalizing m with
  | nil => exact ⟨by simp [stop?, done], fun failure h => by cases h⟩
  | cons statement statements ih =>
      obtain ⟨line, statement⟩ := statement
      rw [runStatements_cons]
      cases hstep : (m.step line statement).failure? with
      | some cause =>
          rw [stop?_cons_of_failure hstep, Outcome.andThen_of_failure hstep, hstep]
          refine ⟨by simp, ?_⟩
          rintro failure hfailure hne
          cases hfailure
          exact line?_of_step hstep hne
      | none =>
          rw [stop?_cons_of_success hstep, Outcome.andThen_of_success _ hstep]
          exact ih _

/-- The events of an instruction that is dispatched. -/
theorem events_after_execute (m : Machine) (line : Nat) (instruction : Instruction)
    (event : Event) :
    ((m.execute line instruction).after event).events.toList = [event] := by
  rw [Outcome.after, events_execute]
  rfl

section Words

variable {word : List Char} {others : List (List Char)}

theorem tells_dispatch
    (h : (m.dispatch number (String.ofList word) (others.head?.map String.ofList)).failure? =
      none) :
    Tells m.mode number (word :: others)
      (m.dispatch number (String.ofList word) (others.head?.map String.ofList)).events.toList := by
  cases hresolve : Instruction.resolve (String.ofList word) (others.head?.map String.ofList)
    number with
  | error cause =>
      rw [dispatch_of_error hresolve] at h
      cases h
  | ok instruction? =>
      cases instruction? with
      | none =>
          rw [dispatch_of_comment hresolve]
          have hcomment := Instruction.resolve_eq_ok_none_iff.mp hresolve
          rw [Instruction.isComment, String.toList_ofList, decide_eq_true_eq] at hcomment
          exact .comment hcomment
      | some instruction =>
          rw [dispatch_of_instruction hresolve, events_after_execute]
          exact .instruction (Instruction.name_of_resolve hresolve) hresolve

theorem tellsLast_dispatch
    (h : (m.dispatch number (String.ofList word) (others.head?.map String.ofList)).failure? =
      some failure) :
    TellsLast number (word :: others)
      (m.dispatch number (String.ofList word) (others.head?.map String.ofList)).events.toList := by
  cases hresolve : Instruction.resolve (String.ofList word) (others.head?.map String.ofList)
    number with
  | error cause =>
      rw [dispatch_of_error hresolve]
      exact .unresolved hresolve
  | ok instruction? =>
      cases instruction? with
      | none =>
          rw [dispatch_of_comment hresolve] at h
          cases h
      | some instruction =>
          rw [dispatch_of_instruction hresolve, events_after_execute]
          exact .resolved hresolve

theorem mode_dispatch (m : Machine) (line : Nat) (word : String) (operand? : Option String) :
    (m.dispatch line word operand?).machine.mode = m.mode := by
  unfold dispatch
  split
  · rfl
  · rfl
  · exact mode_execute m line _

/-- The statement of a line that starts with a word. -/
theorem ofLine_of_tokens {text : List Char} (h : Text.tokens text = word :: others) :
    Statement.ofLine text =
      match Mode.ofName? (String.ofList word) with
      | some selected => .mode selected
      | none => .op (String.ofList word) (others.head?.map String.ofList) := by
  rw [Statement.ofLine, h, List.map_cons, ← List.head?_map]
  rfl

end Words

/-- A line that is carried out tells its part and leaves in force the mode that it names, if it
names one. -/
theorem tells_step {text : List Char}
    (h : (m.step number (Statement.ofLine text)).failure? = none) :
    Tells m.mode number (Text.tokens text)
        (m.step number (Statement.ofLine text)).events.toList ∧
      (m.step number (Statement.ofLine text)).machine.mode =
        modeBehind m.mode (Text.tokens text) := by
  cases htokens : Text.tokens text with
  | nil =>
      rw [Statement.ofLine, htokens]
      exact ⟨.blank, rfl⟩
  | cons word others =>
      rw [ofLine_of_tokens htokens] at h ⊢
      rw [modeBehind_cons]
      cases hmode : Mode.ofName? (String.ofList word) with
      | some selected =>
          have hname := (Mode.ofName?_eq_some_iff.mp hmode).symm
          simp only [step_mode, Option.getD_some, and_true]
          split
          · next hsame =>
              subst hsame
              exact .kept hname
          · next hne => exact .selected hname (Ne.symm hne)
      | none =>
          rw [hmode] at h
          exact ⟨tells_dispatch h, mode_dispatch m number _ _⟩

/-- A line that fails tells its instruction, if it has one. -/
theorem tellsLast_step {text : List Char}
    (h : (m.step number (Statement.ofLine text)).failure? = some failure) :
    TellsLast number (Text.tokens text)
      (m.step number (Statement.ofLine text)).events.toList := by
  cases htokens : Text.tokens text with
  | nil =>
      rw [Statement.ofLine, htokens] at h
      cases h
  | cons word others =>
      rw [ofLine_of_tokens htokens] at h ⊢
      cases hmode : Mode.ofName? (String.ofList word) with
      | some selected =>
          rw [hmode] at h
          simp only [step_mode] at h
          cases h
      | none =>
          rw [hmode] at h
          exact tellsLast_dispatch h

/-- The events of lines are what they tell, up to the line at which the machine stops. -/
theorem exists_told (m : Machine) (number : Nat) (texts : List (List Char)) :
    ∃ parts, (m.runStatements (Statement.numberedFrom number texts)).events.toList = parts.flatten ∧
      Told m.mode number texts parts (m.stop? (Statement.numberedFrom number texts)) := by
  induction texts generalizing m number with
  | nil => exact ⟨[], rfl, .finished⟩
  | cons text texts ih =>
      rw [Statement.numberedFrom_cons, runStatements_cons]
      cases hstep : (m.step number (Statement.ofLine text)).failure? with
      | some failure =>
          rw [stop?_cons_of_failure hstep, Outcome.andThen_of_failure hstep]
          exact ⟨[_], List.flatten_singleton.symm, .stopped (tellsLast_step hstep)⟩
      | none =>
          obtain ⟨parts, hevents, htold⟩ := ih (m.step number (Statement.ofLine text)).machine
            (number + 1)
          obtain ⟨htells, hmode⟩ := tells_step hstep
          rw [hmode] at htold
          rw [stop?_cons_of_success hstep, Outcome.andThen_of_success _ hstep]
          refine ⟨_ :: parts, ?_, .carriedOut htells htold⟩
          rw [Array.toList_append, hevents, List.flatten_cons]

end Machine

namespace Run

variable {source : String} {sink : Sink} {failure : Failure}

/-- A run fails exactly where its machine stops or its flush fails. -/
theorem failure?_eq_none_iff :
    (ofSource source sink).failure? = none ↔
      (Machine.start sink).stop? (Statement.numbered source) = none ∧ sink.failsFlush = false := by
  have hstop := (Machine.stop?_spec (Machine.start sink) (Statement.numbered source)).1
  rw [failure?_ofSource, Option.or_eq_none_iff, hstop]
  cases sink.failsFlush <;> simp [body, Machine.runSource]

/-- A run blames the line at which its machine stops, unless it blames the output. -/
theorem line?_of_failure (h : (ofSource source sink).failure? = some failure) :
    failure.line? = if failure = .output then none
      else (Machine.start sink).stop? (Statement.numbered source) := by
  by_cases houtput : failure = .output
  · subst houtput
    rfl
  · rw [if_neg houtput]
    have hblame := (Machine.stop?_spec (Machine.start sink) (Statement.numbered source)).2
    refine hblame failure ?_ houtput
    -- What is not a failure of the output is not one of the flush.
    rw [failure?_ofSource] at h
    rcases Option.or_eq_some_iff.mp h with hbody | ⟨-, hflush⟩
    · exact hbody
    · split at hflush
      · cases hflush
        exact absurd rfl houtput
      · cases hflush

/-- The events of a run are what its lines tell, one part for each line up to the one at which the
machine stops, then the number of values dropped, then, if the run failed, the line that is blamed,
which is the one at which the machine stopped unless the output is to blame. Line numbers increase,
modes alternate from queue mode on, and the answer is that of the run without events. -/
theorem events_line_by_line (source : String) (sink : Sink) :
    let run := ofSource source sink
    let stop? := (Machine.start sink).stop? (Statement.numbered source)
    run.answer = Unobserved.run source sink ∧
    (run.status = 1 ↔ stop? ≠ none ∨ sink.failsFlush = true) ∧
    ∃ (parts : List (List Event)) (count : Nat),
      run.events.toList = parts.flatten ++ .released count ::
        (if run.status = 1 then
          [.aborted (if run.failure? = some .output then none else stop?)] else []) ∧
      Told .stack 1 (Text.lines source.toList) parts stop? ∧
      (∀ event ∈ parts.flatten, event.isOfLine = true) ∧
      (parts.flatten.filterMap Event.line?).Pairwise (· < ·) ∧
      ∀ index selected, (parts.flatten.filterMap Event.mode?)[index]? = some selected →
        selected = if index % 2 = 0 then .queue else .stack := by
  intro run stop?
  obtain ⟨parts, hevents, htold⟩ :=
    Machine.exists_told (Machine.start sink) 1 (Text.lines source.toList)
  have hnone : run.failure? = none ↔ stop? = none ∧ sink.failsFlush = false :=
    failure?_eq_none_iff
  have hsplit : run.events.toList = parts.flatten ++
      .released (body source sink).machine.sequence.length ::
        (run.failure?.map fun failure => .aborted failure.line?).toList := by
    rw [← hevents]
    exact events_ofSource source sink
  refine ⟨Unobserved.answer_ofSource source sink, ?_, parts,
    (body source sink).machine.sequence.length, ?_, htold, htold.isOfLine, htold.lines.2,
    fun index selected => htold.alternates⟩
  · have hstatus : run.status = 1 ↔ ¬ run.failure? = none := by
      rw [status_eq_one_iff, ← Option.isSome_iff_exists, Option.isSome_iff_ne_none]
    rw [hstatus, hnone, not_and_or, Bool.not_eq_false]
  · rw [hsplit]
    cases hfailure : run.failure? with
    | none => rw [if_neg (by rw [status_eq_zero_iff.mpr hfailure]; decide)]; rfl
    | some failure =>
        rw [if_pos (status_eq_one_iff.mpr ⟨failure, hfailure⟩), Option.map_some,
          line?_of_failure hfailure]
        simp only [Option.some.injEq]
        rfl

-- Selecting the mode in force tells nothing, and the flush is blamed without a line.
example : (ofSource "stack\nqueue\n# note\npush 1" (Sink.fresh none true)).events =
    #[.modeChanged .queue, .comment 3, .dispatch 4 (.push 1) 0, .released 1, .aborted none] := by
  decide +kernel

end Run

end StackQueue
