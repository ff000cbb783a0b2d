import StackQueue.Proofs.Instruction.Labels
import StackQueue.Proofs.Machine.Retelling
import StackQueue.Proofs.Run.Chronicle
import StackQueue.Proofs.Text.Writing

/-!
# Normalised programs

Every line of a program has a shortest form: nothing for a blank line or a comment, the operand of
a `push` in decimal, and no word behind those that are read. With all its lines in this form, a
program gives the same answer in front of every output and tells the same events except for the
comments.
-/

namespace StackQueue

namespace Instruction

variable (word : String) (operand? : Option String)

/-- What is kept of the token behind a word: the value of a `push` in decimal, or the token as it is
if it has no value, and nothing behind any other word. -/
def normalOperand? : Option String :=
  if word = Opcode.push.name then
    match operand?.bind Operand.value? with
    | some value => some (Decimal.text value.toInt)
    | none => operand?
  else
    none

/-- What is kept of the token behind a `push` has the same value, or none. -/
theorem bind_value?_normalOperand? (h : word = Opcode.push.name) :
    (normalOperand? word operand?).bind Operand.value? = operand?.bind Operand.value? := by
  rw [normalOperand?, if_pos h]
  cases hvalue : operand?.bind Operand.value? with
  | none => exact hvalue
  | some value => exact Operand.value?_text value

theorem normalOperand?_normalOperand? :
    normalOperand? word (normalOperand? word operand?) = normalOperand? word operand? := by
  by_cases h : word = Opcode.push.name
  · have hvalue := bind_value?_normalOperand? word operand? h
    generalize hkept : normalOperand? word operand? = kept? at hvalue ⊢
    rw [normalOperand?, if_pos h, hvalue, ← hkept, normalOperand?, if_pos h]
    cases operand?.bind Operand.value? <;> rfl
  · rw [normalOperand?, normalOperand?, if_neg h, if_neg h]

/-- What is kept resolves as before. -/
theorem resolve_normalOperand? (line : Nat) :
    resolve word (normalOperand? word operand?) line = resolve word operand? line := by
  unfold resolve
  split
  · rfl
  split
  · rfl
  · next code hcode =>
      split
      · rfl
      · next hpush =>
          obtain rfl := ofOpcode?_eq_none_iff.mp hpush
          have hname := (Opcode.ofName?_eq_some_iff.mp hcode).symm
          simp only [pushValue, bind_value?_normalOperand? word operand? hname]

end Instruction

namespace Statement

/-- The shortest statement with the same effect. -/
def normal : Statement → Statement
  | .blank => .blank
  | .mode selected => .mode selected
  | .op word operand? =>
      if Instruction.isComment word then .blank
      else .op word (Instruction.normalOperand? word operand?)

variable {word : String} (operand? : Option String)

theorem normal_of_comment (h : Instruction.isComment word = true) :
    normal (.op word operand?) = .blank :=
  if_pos h

theorem normal_of_not_comment (h : Instruction.isComment word = false) :
    normal (.op word operand?) = .op word (Instruction.normalOperand? word operand?) :=
  if_neg (ne_true_of_eq_false h)

theorem normal_normal (statement : Statement) : statement.normal.normal = statement.normal := by
  cases statement with
  | blank => rfl
  | mode selected => rfl
  | op word operand? =>
      cases hcomment : Instruction.isComment word with
      | true =>
          rw [normal_of_comment operand? hcomment]
          rfl
      | false =>
          rw [normal_of_not_comment _ hcomment, normal_of_not_comment _ hcomment,
            Instruction.normalOperand?_normalOperand?]

theorem Readable.normal {statement : Statement} (h : statement.Readable) :
    statement.normal.Readable := by
  cases statement with
  | blank => exact trivial
  | mode selected => exact trivial
  | op word operand? =>
      obtain ⟨hword, hmode, hoperand⟩ := h
      cases hcomment : Instruction.isComment word with
      | true =>
          rw [normal_of_comment operand? hcomment]
          exact trivial
      | false =>
          rw [normal_of_not_comment operand? hcomment]
          refine ⟨hword, hmode, ?_⟩
          intro operand hmem
          unfold Instruction.normalOperand? at hmem
          split at hmem
          · split at hmem
            · obtain rfl := Option.some.inj hmem
              exact Decimal.isToken_text _
            · exact hoperand operand hmem
          · cases hmem

end Statement

namespace Event

def isComment : Event → Bool
  | comment _ => true
  | dispatch _ _ _ | modeChanged _ | released _ | aborted _ => false

/-- The event itself, unless it is a comment. -/
def unlessComment : Event → Option Event :=
  Option.guard fun event => !event.isComment

end Event

theorem Outcome.events_retell_unlessComment (outcome : Outcome) :
    (outcome.retell id Event.unlessComment).events.toList =
      outcome.events.toList.filter fun event => !event.isComment := by
  rw [retell, Array.toList_filterMap, Event.unlessComment, List.filterMap_eq_filter]

namespace Machine

variable (m : Machine) (line : Nat)

/-- A word that is no comment tells of none. -/
theorem retell_dispatch {word : String} (h : Instruction.isComment word = false)
    (operand? : Option String) :
    (m.dispatch line word operand?).retell id Event.unlessComment =
      m.dispatch line word operand? := by
  cases hresolve : Instruction.resolve word operand? line with
  | error failure =>
      rw [dispatch_of_error hresolve]
      rfl
  | ok instruction? =>
      cases instruction? with
      | none =>
          rw [Instruction.resolve_eq_ok_none_iff.mp hresolve] at h
          cases h
      | some instruction =>
          rw [dispatch_of_instruction hresolve]
          simp only [Outcome.retell, Outcome.after, events_execute, Option.map_id]
          rfl

/-- The shortest form of a statement does the same and tells the same, unless it is a comment. -/
theorem step_normal (statement : Statement) :
    m.step line statement.normal =
      (m.step line statement).retell id Event.unlessComment := by
  cases statement with
  | blank => rfl
  | mode selected =>
      rw [Statement.normal, step_mode, Outcome.retell]
      split <;> rfl
  | op word operand? =>
      cases hcomment : Instruction.isComment word with
      | true =>
          rw [Statement.normal_of_comment operand? hcomment, step, step,
            dispatch_of_comment (Instruction.resolve_eq_ok_none_iff.mpr hcomment)]
          rfl
      | false =>
          rw [Statement.normal_of_not_comment operand? hcomment, step, step,
            retell_dispatch m line hcomment]
          simp only [dispatch, Instruction.resolve_normalOperand?]

end Machine

namespace Run

/-- The program with every line in its shortest form. -/
def normalised (source : String) : String :=
  Statement.program ((Text.lines source.toList).map fun line => (Statement.ofLine line).normal)

variable (source : String) (sink : Sink)

theorem readable_normal :
    ∀ statement ∈ (Text.lines source.toList).map fun line => (Statement.ofLine line).normal,
      statement.Readable := by
  intro statement hmem
  obtain ⟨line, -, rfl⟩ := List.mem_map.mp hmem
  exact (Statement.readable_ofLine line).normal

theorem lines_normalised :
    Text.lines (normalised source).toList =
      (Text.lines source.toList).map fun line => (Statement.ofLine line).normal.written := by
  rw [normalised, Statement.lines_program (readable_normal source), List.map_map]
  rfl

theorem numbered_normalised :
    Statement.numbered (normalised source) =
      (Statement.numbered source).map fun statement => (statement.1, statement.2.normal) := by
  rw [normalised, Statement.numbered_program (readable_normal source), Statement.numbered,
    List.zipIdx_map, List.map_map, List.map_map]
  rfl

theorem normalised_normalised : normalised (normalised source) = normalised source := by
  have hline (line : List Char) :
      (Statement.ofLine (Statement.ofLine line).normal.written).normal =
        (Statement.ofLine line).normal := by
    rw [Statement.ofLine_written (Statement.readable_ofLine line).normal, Statement.normal_normal]
  rw [normalised, lines_normalised, List.map_map, normalised]
  simp only [Function.comp_def, hline]

/-- The lines of a normalised program do the same and tell the same except for the comments. -/
theorem body_normalised :
    body (normalised source) sink = (body source sink).retell id Event.unlessComment := by
  unfold body Machine.runSource
  rw [numbered_normalised]
  apply Machine.runStatements_of_retells
  rw [List.forall₂_map_right_iff, List.forall₂_same]
  intro statement _ m
  exact m.step_normal statement.1 statement.2

/-- What a run tells behind the events of its lines. -/
def ending (count : Nat) (failure? : Option Failure) : List Event :=
  .released count :: (failure?.map fun failure => Event.aborted failure.line?).toList

/-- Behind the events of the lines there is no comment. -/
theorem filter_ending (count : Nat) (failure? : Option Failure) :
    (ending count failure?).filter (fun event => !event.isComment) = ending count failure? := by
  cases failure? <;> rfl

/-- A normalised program has as many lines as the program itself, each in its shortest form. In
front of every output both give the same answer and tell the same events, except that the
normalised one has no comments. What is normalised stays as it is when it is normalised again. -/
theorem normalised_runs_alike :
    Text.lines (normalised source).toList =
      ((Text.lines source.toList).map fun line => (Statement.ofLine line).normal.written) ∧
    (ofSource (normalised source) sink).answer = (ofSource source sink).answer ∧
    (ofSource (normalised source) sink).events.toList =
      (ofSource source sink).events.toList.filter (fun event => !event.isComment) ∧
    normalised (normalised source) = normalised source := by
  have hbody := body_normalised source sink
  have hfailure :
      (ofSource (normalised source) sink).failure? = (ofSource source sink).failure? := by
    rw [failure?_ofSource, failure?_ofSource, hbody, Outcome.retell, Option.map_id]
    rfl
  have houtput : (ofSource (normalised source) sink).output = (ofSource source sink).output := by
    rw [output_ofSource, output_ofSource, hbody]
    rfl
  refine ⟨lines_normalised source, ?_, ?_, normalised_normalised source⟩
  · simp only [answer, status, diagnostic, hfailure, houtput]
  · calc (ofSource (normalised source) sink).events.toList =
        (body source sink).events.toList.filter (fun event => !event.isComment) ++
          ending (body source sink).machine.sequence.length (ofSource source sink).failure? := by
          rw [events_ofSource, hfailure, hbody, Outcome.events_retell_unlessComment]
          rfl
      _ = ((body source sink).events.toList ++
          ending (body source sink).machine.sequence.length (ofSource source sink).failure?).filter
            (fun event => !event.isComment) := by
          rw [List.filter_append, filter_ending]
      _ = (ofSource source sink).events.toList.filter (fun event => !event.isComment) := by
          rw [events_ofSource]
          rfl

example : normalised " push \t-007 x\r\n# note\n\x0c\nswap 1\npush 2147483648 x\nqueue up" =
    "push -7\n\n\nswap\npush 2147483648\nqueue\n" := by decide +kernel

end Run

end StackQueue
