import StackQueue.Machine.Session
import StackQueue.Proofs.Instruction.Resolution
import StackQueue.Proofs.Run.Unobserved
import StackQueue.Proofs.Text.Writing

/-!
# Listings of actions

Any list of actions can be written as the text of a program, one action on each line. Each line
asks for its action and nothing else, so running the text leads to the same machine and the same
failure as carrying out the actions directly.
-/

namespace StackQueue

namespace Opcode

/-- The name of an opcode is a token that names no mode. -/
theorem isToken_name (code : Opcode) :
    Text.IsToken code.name ∧ Mode.ofName? code.name = none := by
  have hall : ∀ code ∈ Opcode.all,
      Text.IsToken code.name ∧ Mode.ofName? code.name = none := by
    decide
  exact hall code (mem_all code)

end Opcode

namespace Action

/-- The statement that asks for an action. -/
def statement : Action → Statement
  | .perform (.push value) => .op Opcode.push.name (some (Decimal.text value.toInt))
  | .perform instruction => .op instruction.opcode.name none
  | .select mode => .mode mode

/-- The text of a program that asks for actions, one on each line. -/
def listing (actions : List Action) : String :=
  Statement.program (actions.map statement)

/-- An insertion is written as its word and the decimal form of its value. -/
theorem written_push (value : Int32) :
    (perform (.push value)).statement.written =
      "push ".toList ++ Decimal.render value.toInt := by
  have hword : "push ".toList = Opcode.push.name.toList ++ [' '] := by decide
  rw [hword, List.append_assoc, List.singleton_append, ← Decimal.toList_text, statement,
    Statement.written]

theorem statement_perform {instruction : Instruction} (h : ∀ value, instruction ≠ .push value) :
    (perform instruction).statement = .op instruction.opcode.name none := by
  cases instruction with
  | push value => exact absurd rfl (h value)
  | _ => rfl

theorem readable_statement (action : Action) : action.statement.Readable := by
  cases action with
  | select mode => exact trivial
  | perform instruction =>
      by_cases hpush : ∃ value, instruction = .push value
      · obtain ⟨value, rfl⟩ := hpush
        obtain ⟨htoken, hmode⟩ := Opcode.isToken_name .push
        refine ⟨htoken, hmode, ?_⟩
        rintro _ ⟨⟩
        exact Decimal.isToken_text value.toInt
      · rw [statement_perform (not_exists.mp hpush)]
        obtain ⟨htoken, hmode⟩ := instruction.opcode.isToken_name
        refine ⟨htoken, hmode, ?_⟩
        rintro _ ⟨⟩

end Action

namespace Statement

/-- What the statement of the given line asks for, if anything. -/
def action? (line : Nat) : Statement → Except Failure (Option Action)
  | .blank => .ok none
  | .mode selected => .ok (some (.select selected))
  | .op word operand? =>
      (Instruction.resolve word operand? line).map fun instruction? =>
        instruction?.map Action.perform

/-- What numbered statements ask for. -/
def asked (statements : List (Nat × Statement)) : List (Except Failure (Option Action)) :=
  statements.map fun statement => statement.2.action? statement.1

/-- The statement of an action asks for this action. -/
theorem action?_statement (action : Action) (line : Nat) :
    action.statement.action? line = .ok (some action) := by
  cases action with
  | select mode => rfl
  | perform instruction =>
      by_cases hpush : ∃ value, instruction = .push value
      · obtain ⟨value, rfl⟩ := hpush
        rw [Action.statement, action?, Instruction.resolve_push]
        rfl
      · have hne := not_exists.mp hpush
        rw [Action.statement_perform hne, action?,
          Instruction.resolve_name (Instruction.ofOpcode?_opcode hne)]
        rfl

theorem numbered_listing (actions : List Action) :
    numbered (Action.listing actions) =
      (actions.zipIdx 1).map fun entry => (entry.2, entry.1.statement) := by
  have hreadable : ∀ statement ∈ actions.map Action.statement, statement.Readable := by
    intro statement hmem
    obtain ⟨action, -, rfl⟩ := List.mem_map.mp hmem
    exact action.readable_statement
  rw [Action.listing, numbered_program hreadable, List.zipIdx_map, List.map_map]
  rfl

end Statement

namespace Machine

open Unobserved

/-- A statement that asks for an instruction reports it and carries it out. -/
theorem step_of_asks {line : Nat} {statement : Statement} {instruction : Instruction}
    (h : statement.action? line = .ok (some (.perform instruction))) (m : Machine)
    (storage : Storage) :
    m.step line statement storage =
      (m.execute line instruction storage).after
        (.dispatch line instruction m.sequence.length) := by
  cases statement with
  | blank | mode => cases h
  | op word operand? =>
      rw [Statement.action?] at h
      cases hresolve : Instruction.resolve word operand? line with
      | error failure =>
          rw [hresolve] at h
          cases h
      | ok instruction? =>
          rw [hresolve] at h
          cases instruction? <;> cases h
          exact dispatch_of_instruction hresolve

/-- A statement that asks for no instruction needs no storage and leaves the values and the output
alone. -/
theorem step_of_not_asks {line : Nat} {statement : Statement}
    (h : ∀ instruction, statement.action? line ≠ .ok (some (.perform instruction)))
    (m : Machine) (storage : Storage) :
    m.step line statement storage = m.step line statement ∧
      (m.step line statement).machine.sequence = m.sequence ∧
      (m.step line statement).machine.sink = m.sink := by
  cases statement with
  | blank => exact ⟨rfl, rfl, rfl⟩
  | mode selected =>
      refine ⟨rfl, ?_, ?_⟩ <;> rw [step_mode]
  | op word operand? =>
      rw [step, step]
      cases hresolve : Instruction.resolve word operand? line with
      | error failure =>
          rw [dispatch_of_error hresolve, dispatch_of_error hresolve]
          exact ⟨rfl, rfl, rfl⟩
      | ok instruction? =>
          cases instruction? with
          | none =>
              rw [dispatch_of_comment hresolve, dispatch_of_comment hresolve]
              exact ⟨rfl, rfl, rfl⟩
          | some instruction =>
              refine absurd ?_ (h instruction)
              rw [Statement.action?, hresolve]
              rfl

/-- Carry out actions on behalf of the lines from `number` on up to the first failure. -/
def actEach (m : Machine) (number : Nat) : List Action → Machine × Option Failure
  | [] => (m, none)
  | action :: actions =>
      match forget (m.act number action) with
      | (m, some failure) => (m, some failure)
      | (m, none) => m.actEach (number + 1) actions

/-- A statement that asks for an action leads where the action leads. -/
theorem step_of_action? {statement : Statement} {line : Nat} {action : Action}
    (h : statement.action? line = .ok (some action)) (m : Machine) :
    Unobserved.step m line statement = forget (m.act line action) := by
  rw [← forget_step]
  cases statement with
  | blank => cases h
  | mode selected =>
      cases h
      rfl
  | op word operand? =>
      rw [step]
      rw [Statement.action?] at h
      cases hresolve : Instruction.resolve word operand? line with
      | error failure =>
          rw [hresolve] at h
          cases h
      | ok instruction? =>
          rw [hresolve] at h
          cases instruction? with
          | none => cases h
          | some instruction =>
              cases h
              rw [dispatch_of_instruction hresolve]
              rfl

/-- Lines that ask for actions, one each, lead where the actions lead. -/
theorem runLines_of_asks {number : Nat} {texts : List (List Char)} {actions : List Action}
    (h : Statement.asked (Statement.numberedFrom number texts) =
      actions.map fun action => .ok (some action)) (m : Machine) :
    runLines m number texts = m.actEach number actions := by
  induction texts generalizing m number actions with
  | nil =>
      obtain rfl : actions = [] := List.map_eq_nil_iff.mp h.symm
      rfl
  | cons text texts ih =>
      cases actions with
      | nil => cases h
      | cons action actions =>
          rw [Statement.numberedFrom_cons, Statement.asked, List.map_cons, List.map_cons] at h
          obtain ⟨hfirst, hothers⟩ := List.cons.inj h
          rw [runLines, step_of_action? hfirst m, actEach]
          obtain ⟨after, _ | failure⟩ := forget (m.act number action)
          · exact ih hothers after
          · rfl

/-- A program whose lines ask for actions, one each, leads where the actions lead. -/
theorem runSource_of_asks {source : String} {actions : List Action}
    (h : Statement.asked (Statement.numbered source) = actions.map fun action => .ok (some action))
    (m : Machine) :
    forget (m.runSource source) = m.actEach 1 actions :=
  (forget_runStatements m 1 _).trans (runLines_of_asks h m)

theorem asks_listing (actions : List Action) :
    Statement.asked (Statement.numbered (Action.listing actions)) =
      actions.map fun action => .ok (some action) := by
  have hask : (fun statement : Nat × Statement => statement.2.action? statement.1) ∘
      (fun entry : Action × Nat => (entry.2, entry.1.statement)) =
        (fun action => .ok (some action)) ∘ Prod.fst := by
    ext1 entry
    exact Statement.action?_statement entry.1 entry.2
  rw [Statement.numbered_listing, Statement.asked, List.map_map, hask, ← List.map_map,
    List.zipIdx_map_fst]

/-- The lines of a listing ask for the listed actions, each line for the one of its number. Running
the listing leads to the same machine and the same failure, if any, as carrying out the actions
directly on behalf of these lines. -/
theorem runs_as_listed (m : Machine) (actions : List Action) :
    ((Statement.numbered (Action.listing actions)).map fun statement =>
        (statement.1, statement.2.action? statement.1)) =
      ((actions.zipIdx 1).map fun entry => (entry.2, .ok (some entry.1))) ∧
    forget (m.runSource (Action.listing actions)) = m.actEach 1 actions := by
  refine ⟨?_, runSource_of_asks (asks_listing actions) m⟩
  rw [Statement.numbered_listing, List.map_map]
  simp only [Function.comp_def, Statement.action?_statement]

example : Action.listing [.perform (.push (-7)), .select .queue, .perform (.arith .mod)] =
    "push -7\nqueue\nmod\n" := by decide

end Machine

end StackQueue
