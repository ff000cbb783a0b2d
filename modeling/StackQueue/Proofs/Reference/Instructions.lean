import StackQueue.Instruction.Resolve
import StackQueue.Proofs.Reference.Printing
import StackQueue.Proofs.Sequence.Refinement

/-!
# Instructions on lists

An instruction does to a sequence what the reference does to the list that the sequence represents.
Where a word and its operand resolve to no instruction, the reference fails in the same way.
-/

namespace StackQueue.Reference

open Instruction Sequence

variable {s t : Sequence} {slots : List Nat} {state : State} {values : List Int32}
  {printed : List UInt8} {failure : Failure}

/-- The reply of an instruction and the sequence that it leaves agree with an effect. -/
def Follows (reply : Except Failure (List UInt8) × Sequence) (state : State) :
    Except Failure State → Prop
  | .error failure => reply.1 = .error failure
  | .ok after => ∃ printed slots values,
      reply.1 = .ok printed ∧ reply.2.Represents slots values ∧
        after = (state.withValues values).print printed

theorem follows_withValues (h : t.Represents slots values) :
    Follows (.ok [], t) state (.ok (state.withValues values)) := by
  refine ⟨[], slots, values, rfl, h, ?_⟩
  simp only [State.print, State.withValues, List.append_nil]

theorem follows_print (h : s.Represents slots state.values) :
    Follows (.ok printed, s) state (.ok (state.print printed)) :=
  ⟨printed, slots, state.values, rfl, h, rfl⟩

/-- What an operation makes of a sequence follows what it makes of the list. -/
theorem follows_operation (h : s.Represents slots state.values) (operation : Operation) :
    Follows (.ok [], (operation.apply s).2) state
      (.ok (state.withValues (operation.onList state.values).2)) := by
  obtain ⟨_, others, hafter⟩ := h.agrees operation
  exact follows_withValues hafter

theorem bind_value? (operand? : Option String) :
    operand?.bind Operand.value? =
      operand?.bind fun operand => (Operand.integer? operand.toList).bind Operand.word? := by
  cases operand? with
  | none => rfl
  | some operand => exact Operand.value?_eq operand

theorem follows_push (h : s.Represents slots state.values) (line : Nat)
    (operand? : Option String) {value : Int32}
    (hvalue : operand?.bind Operand.value? = some value) :
    Follows ((Instruction.push value).perform state.mode line s) state
      (push line operand? state) := by
  rw [bind_value?] at hvalue
  simp only [push, hvalue, perform]
  obtain ⟨mode, values, printed⟩ := state
  cases mode with
  | stack => exact follows_operation h (.push .stack value)
  | queue => exact follows_operation h (.push .queue value)

theorem follows_pint (h : s.Represents slots state.values) (line : Nat) :
    Follows (Instruction.pint.perform state.mode line s) state (pint line state) := by
  have hfront := h.frontValue?_eq
  unfold pint
  cases hvalues : state.values with
  | nil =>
      rw [hvalues] at hfront
      simp only [perform, hfront, List.head?_nil]
      rfl
  | cons front rest =>
      rw [hvalues] at hfront
      simp only [perform, hfront, List.head?_cons, decimal_eq]
      exact follows_print h

theorem follows_pchar (h : s.Represents slots state.values) (line : Nat) :
    Follows (Instruction.pchar.perform state.mode line s) state (pchar line state) := by
  have hfront := h.frontValue?_eq
  unfold pchar
  cases hvalues : state.values with
  | nil =>
      rw [hvalues] at hfront
      simp only [perform, hfront, List.head?_nil]
      rfl
  | cons front rest =>
      rw [hvalues] at hfront
      simp only [perform, hfront, List.head?_cons, character?_eq]
      cases Printed.isCharacter front with
      | false => rfl
      | true => exact follows_print h

theorem follows_pop (h : s.Represents slots state.values) (line : Nat) :
    Follows (Instruction.pop.perform state.mode line s) state (pop line state) := by
  obtain ⟨mode, values, printed⟩ := state
  cases values with
  | nil =>
      simp only [perform, h.popFront_nil]
      rfl
  | cons front rest =>
      obtain ⟨slot, others, rfl⟩ := h.exists_cons
      have hpop : s.popFront = (some front, s.popFront.2) := Prod.ext h.fst_popFront rfl
      simp only [perform]
      rw [hpop]
      exact follows_operation h .popFront

theorem follows_swap (h : s.Represents slots state.values) (line : Nat) :
    Follows (Instruction.swap.perform state.mode line s) state (swap line state) := by
  obtain ⟨mode, values, printed⟩ := state
  have hshort (hcells : s.frontCells? = none) :
      (Instruction.swap.perform mode line s).1 = .error (.shortStack line .swap) := by
    simp only [perform, Sequence.swapFront, hcells]
  rcases h.shapes with ⟨rfl, rfl⟩ | ⟨slot, x, rfl, rfl⟩ | ⟨_, _, _, x, y, rest, rfl, rfl⟩
  · exact hshort h.frontCells?_nil
  · exact hshort h.frontCells?_singleton
  · have hswap : s.swapFront = (true, s.swapFront.2) := by
      simp only [Sequence.swapFront, h.frontCells?_eq_some]
    simp only [perform]
    rw [hswap]
    exact follows_operation h .swapFront

theorem follows_combine (h : s.Represents slots state.values) (line : Nat) (op : Operator) :
    Follows ((Instruction.arith op).perform state.mode line s) state (combine line op state) := by
  obtain ⟨mode, values, printed⟩ := state
  have hshort (hcells : s.frontCells? = none) :
      ((Instruction.arith op).perform mode line s).1 = .error (.shortStack line (.arith op)) := by
    simp only [perform, Sequence.topTwo?, hcells, Option.map_none]
  rcases h.shapes with ⟨rfl, rfl⟩ | ⟨slot, x, rfl, rfl⟩ | ⟨_, _, _, x, y, rest, rfl, rfl⟩
  · exact hshort h.frontCells?_nil
  · exact hshort h.frontCells?_singleton
  · have htwo : s.topTwo? = some (x, y) := by
      simp only [Sequence.topTwo?, h.frontCells?_eq_some, Option.map_some]
    simp only [perform, htwo, combine, apply_eq]
    by_cases hzero : (op = .div ∨ op = .mod) ∧ x = 0
    · simp only [if_pos hzero]
      rfl
    · simp only [if_neg hzero]
      exact follows_operation h (.collapseFront _)

theorem follows_rotl (h : s.Represents slots state.values) (line : Nat) :
    Follows (Instruction.rotl.perform state.mode line s) state
      (.ok (state.withValues (rotateLeft state.values))) := by
  have hlist : (Operation.rotateLeft.onList state.values).2 = rotateLeft state.values := by
    cases state.values <;> rfl
  rw [← hlist]
  exact follows_operation h .rotateLeft

theorem follows_rotr (h : s.Represents slots state.values) (line : Nat) :
    Follows (Instruction.rotr.perform state.mode line s) state
      (.ok (state.withValues (rotateRight state.values))) := by
  have hlist : (Operation.rotateRight.onList state.values).2 = rotateRight state.values := by
    unfold Operation.onList rotateRight
    cases state.values.getLast? <;> rfl
  rw [← hlist]
  exact follows_operation h .rotateRight

theorem flatMap_decimal (values : List Int32) :
    values.flatMap Printed.decimal = values.flatMap decimalLine :=
  congrArg values.flatMap (funext decimal_eq)

/-- An instruction without operand has the effect that the reference gives to its name. -/
theorem follows_of_ofOpcode? (h : s.Represents slots state.values) (line : Nat)
    (operand? : Option String) {code : Opcode} {instruction : Instruction}
    (hcode : ofOpcode? code = some instruction) :
    Follows (instruction.perform state.mode line s) state
      (Reference.instruction line code.name operand? state) := by
  cases code with
  | push => cases hcode
  | pall =>
      cases hcode
      simp only [perform, h.toList_eq, flatMap_decimal]
      exact follows_print h
  | pint =>
      cases hcode
      exact follows_pint h line
  | pop =>
      cases hcode
      exact follows_pop h line
  | nop =>
      cases hcode
      exact follows_withValues h
  | swap =>
      cases hcode
      exact follows_swap h line
  | arith op =>
      cases hcode
      cases op with
      | add => exact follows_combine h line .add
      | sub => exact follows_combine h line .sub
      | mul => exact follows_combine h line .mul
      | div => exact follows_combine h line .div
      | mod => exact follows_combine h line .mod
  | pchar =>
      cases hcode
      exact follows_pchar h line
  | pstr =>
      cases hcode
      simp only [perform, h.toList_eq, spelled_eq]
      exact follows_print h
  | rotl =>
      cases hcode
      exact follows_rotl h line
  | rotr =>
      cases hcode
      exact follows_rotr h line

/-- The reference knows no other words than the names of the opcodes. -/
theorem instruction_of_ne_name (line : Nat) {word : String} (operand? : Option String)
    (state : State) (h : ∀ code : Opcode, code.name ≠ word) :
    Reference.instruction line word operand? state = .error (.unknownInstruction line word) := by
  unfold Reference.instruction
  split
  · exact absurd rfl (h .push)
  · exact absurd rfl (h .pall)
  · exact absurd rfl (h .pint)
  · exact absurd rfl (h .pop)
  · exact absurd rfl (h .nop)
  · exact absurd rfl (h .swap)
  · exact absurd rfl (h (.arith .add))
  · exact absurd rfl (h (.arith .sub))
  · exact absurd rfl (h (.arith .mul))
  · exact absurd rfl (h (.arith .div))
  · exact absurd rfl (h (.arith .mod))
  · exact absurd rfl (h .pchar)
  · exact absurd rfl (h .pstr)
  · exact absurd rfl (h .rotl)
  · exact absurd rfl (h .rotr)
  · rfl

/-- What a resolved word has to do with the effect that the reference gives to it. -/
def Resolves (s : Sequence) (state : State) (line : Nat)
    (resolved : Except Failure (Option Instruction)) (effect : Except Failure State) : Prop :=
  match resolved with
  | .error failure => effect = .error failure
  | .ok none => effect = .ok state
  | .ok (some instruction) => Follows (instruction.perform state.mode line s) state effect

/-- A word and its operand resolve to what the reference makes of them. -/
theorem resolves (h : s.Represents slots state.values) (line : Nat) (word : String)
    (operand? : Option String) :
    Resolves s state line (resolve word operand? line) (dispatch line word operand? state) := by
  unfold resolve dispatch isComment
  by_cases hcomment : word.toList.head? = some '#'
  · simp only [hcomment, decide_true, if_true]
    rfl
  · simp only [hcomment, decide_false, if_false, Bool.false_eq_true]
    cases hname : Opcode.ofName? word with
    | none =>
        apply instruction_of_ne_name
        intro code hcode
        rw [Opcode.ofName?_eq_some_iff.mpr hcode] at hname
        cases hname
    | some code =>
        obtain rfl := Opcode.ofName?_eq_some_iff.mp hname
        cases hcode : ofOpcode? code with
        | some instruction =>
            simp only [hcode]
            exact follows_of_ofOpcode? h line operand? hcode
        | none =>
            obtain rfl := ofOpcode?_eq_none_iff.mp hcode
            unfold pushValue
            cases hvalue : operand?.bind Operand.value? with
            | some value => exact follows_push h line operand? hvalue
            | none =>
                rw [bind_value?] at hvalue
                change push line operand? state = _
                simp only [push, hvalue]

end StackQueue.Reference
