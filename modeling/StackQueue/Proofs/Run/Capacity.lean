import StackQueue.Proofs.Run.Refusal
import StackQueue.Proofs.Sequence.Storage

/-!
# How much storage a run needs

A run needs storage for as many cells as it holds values at once, because a cell whose value has
been removed is used again before a new one is asked for. A run that never holds more values than
there is storage for is not refused storage, and every other run is.

## Implementation notes

The number of cells grows only with a `push` that finds no free slot. `Stored` bounds it by the
capacity along a run in bounded storage, so a `push` without room finds as many values as there are
cells.
-/

namespace StackQueue

variable {s : Sequence} {capacity : Nat}

/-! ### Operations that insert -/

namespace Operation

/-- Whether an operation inserts a value. -/
def inserts : Operation → Bool
  | push _ _ | pushFront _ | pushBack _ => true
  | popFront | frontValue | topTwo | swapFront | collapseFront _ | rotateLeft | rotateRight
  | releaseAll | iterate _ => false

end Operation

namespace Sequence

variable {operation : Operation}

/-- Only an insertion changes the number of cells, unless all are dropped. -/
theorem Represents.size_apply_of_not_inserts {slots : List Nat} {values : List Int32}
    (h : s.Represents slots values) (hne : operation ≠ .releaseAll)
    (hinserts : operation.inserts = false) :
    (operation.apply s).2.cells.size = s.cells.size := by
  have hstores := h.stores operation
  cases operation with
  | push | pushFront | pushBack => cases hinserts
  | releaseAll => exact absurd rfl hne
  | popFront =>
      rcases hstores with ⟨-, -, heq⟩ | ⟨value, first, -, -, hback⟩
      · rw [heq]
      · exact hback.size_eq
  | collapseFront =>
      rcases hstores with ⟨-, -, heq⟩ | ⟨first, second, -, -, -, -, hback⟩
      · rw [heq]
      · exact hback.size_eq
  | frontValue | topTwo | swapFront | rotateLeft | rotateRight | iterate => exact hstores.size_eq

/-! ### Sequences in bounded storage -/

/-- A sequence represents some values in no more cells than the capacity. -/
def Stored (s : Sequence) (capacity : Nat) : Prop :=
  (∃ slots values, s.Represents slots values) ∧ s.cells.size ≤ capacity

theorem stored_empty (capacity : Nat) : empty.Stored capacity :=
  ⟨⟨[], [], represents_empty⟩, Nat.zero_le capacity⟩

theorem Stored.length_le (h : s.Stored capacity) : s.length ≤ capacity := by
  obtain ⟨⟨slots, values, hrepresents⟩, hsize⟩ := h
  have hcells := hrepresents.size_eq
  omega

/-- There is room for another value exactly if fewer values are held than there may be cells. -/
theorem Stored.hasRoom_iff (h : s.Stored capacity) :
    s.hasRoom (.bounded capacity) = true ↔ s.length < capacity := by
  obtain ⟨⟨slots, values, hrepresents⟩, hsize⟩ := h
  have hcells := hrepresents.size_eq
  cases hfree : s.free with
  | nil =>
      rw [hfree, List.length_nil] at hcells
      simp only [hasRoom, Storage.grants, Storage.bounded, hfree, List.isEmpty_nil, Bool.and_true,
        Bool.not_true, Bool.or_false, decide_eq_true_eq]
      omega
  | cons slot free =>
      rw [hfree, List.length_cons] at hcells
      refine iff_of_true ?_ (by omega)
      simp [hasRoom, hfree]

/-- An operation stays within the capacity if it does not insert, or if there is room. -/
theorem Stored.apply (h : s.Stored capacity) (hne : operation ≠ .releaseAll)
    (hroom : operation.inserts = true → s.length < capacity) :
    (operation.apply s).2.Stored capacity := by
  obtain ⟨⟨slots, values, hrepresents⟩, hsize⟩ := h
  obtain ⟨-, others, hafter⟩ := hrepresents.agrees operation
  refine ⟨⟨others, _, hafter⟩, ?_⟩
  cases hinserts : operation.inserts with
  | false =>
      rw [hrepresents.size_apply_of_not_inserts hne hinserts]
      exact hsize
  | true =>
      have hlength := hroom hinserts
      cases hrepresents.shifts hne with
      | keep h => exact h.size_eq.trans_le hsize
      | reuse slot hfree hcells => exact hcells.trans_le hsize
      | giveBack slot h => exact h.size_eq.trans_le hsize
      | append hnone hfree hcells =>
          have hbefore := hrepresents.size_eq
          rw [hnone, List.length_nil] at hbefore
          omega

end Sequence

/-! ### Runs in bounded storage -/

namespace Instruction

/-- In plentiful storage an instruction does one operation to the sequence. -/
theorem exists_operation (instruction : Instruction) (mode : Mode) (line : Nat) (s : Sequence) :
    ∃ operation : Operation, operation ≠ .releaseAll ∧
      (operation.inserts = true → ∃ value, instruction = push value) ∧
      (instruction.perform mode line s).2 = (operation.apply s).2 := by
  have unchanged (h : (instruction.perform mode line s).2 = s) :
      ∃ operation : Operation, operation ≠ .releaseAll ∧
        (operation.inserts = true → ∃ value, instruction = push value) ∧
        (instruction.perform mode line s).2 = (operation.apply s).2 :=
    ⟨.frontValue, by simp, by simp [Operation.inserts], h⟩
  cases instruction with
  | push value =>
      refine ⟨.push mode value, by simp, fun _ => ⟨value, rfl⟩, ?_⟩
      rw [perform_push, Operation.apply]
  | pall | nop | pstr => exact unchanged rfl
  | pint =>
      apply unchanged
      simp only [perform]
      split <;> rfl
  | pchar =>
      apply unchanged
      simp only [perform]
      split
      · rfl
      · split <;> rfl
  | pop =>
      refine ⟨.popFront, by simp, by simp [Operation.inserts], ?_⟩
      simp only [perform, Operation.apply]
      split <;> simp_all
  | swap =>
      refine ⟨.swapFront, by simp, by simp [Operation.inserts], ?_⟩
      simp only [perform, Operation.apply]
      split <;> simp_all
  | arith op =>
      cases htwo : (s.topTwo?.bind fun values => op.apply values.1 values.2) with
      | none =>
          apply unchanged
          simp only [perform]
          split
          · rfl
          · next front second heq =>
              rw [heq, Option.bind_some] at htwo
              rw [htwo]
      | some result =>
          refine ⟨.collapseFront result, by simp, by simp [Operation.inserts], ?_⟩
          obtain ⟨⟨front, second⟩, heq, hresult⟩ := Option.bind_eq_some_iff.mp htwo
          simp only [perform, heq, hresult, Operation.apply]
  | rotl => exact ⟨.rotateLeft, by simp, by simp [Operation.inserts], rfl⟩
  | rotr => exact ⟨.rotateRight, by simp, by simp [Operation.inserts], rfl⟩

/-- In bounded storage an instruction stays within the capacity. -/
theorem stored_perform (h : s.Stored capacity) (instruction : Instruction) (mode : Mode)
    (line : Nat) :
    (instruction.perform mode line s (.bounded capacity)).2.Stored capacity := by
  by_cases hrefused : (instruction.perform mode line s (.bounded capacity)).1 =
      .error .allocation
  · rw [perform_of_error hrefused]
    exact h
  · obtain ⟨operation, hne, hinserts, hafter⟩ := exists_operation instruction mode line s
    rw [perform_of_ne_allocation hrefused, hafter]
    refine h.apply hne fun hinsertion => ?_
    have hpush := hinserts hinsertion
    rw [← h.hasRoom_iff]
    by_contra hroom
    exact hrefused (perform_eq_allocation_iff.mpr ⟨hpush, Bool.eq_false_of_not_eq_true hroom⟩)

end Instruction

namespace Machine

variable {m : Machine} {line : Nat} {statement : Statement} {statements : List (Nat × Statement)}
  {value : Int32}

theorem stored_step (h : m.sequence.Stored capacity) (line : Nat) (statement : Statement) :
    (m.step line statement (.bounded capacity)).machine.sequence.Stored capacity := by
  by_cases hasks : ∃ instruction, statement.action? line = .ok (some (.perform instruction))
  · obtain ⟨instruction, hasks⟩ := hasks
    rw [step_of_asks hasks, Outcome.after, sequence_execute]
    exact Instruction.stored_perform h instruction m.mode line
  · obtain ⟨hsame, hsequence, -⟩ := step_of_not_asks (not_exists.mp hasks) m (.bounded capacity)
    rw [hsame, hsequence]
    exact h

theorem stored_runStatements (h : m.sequence.Stored capacity)
    (statements : List (Nat × Statement)) :
    (m.runStatements statements (.bounded capacity)).machine.sequence.Stored capacity := by
  apply preserved_runStatements (P := fun m => m.sequence.Stored capacity)
  · intro m line statement h
    exact stored_step h line statement
  · exact h

/-- In plentiful storage a `push` succeeds, and then one value more is held. -/
theorem step_of_asks_push (h : statement.action? line = .ok (some (.perform (.push value))))
    (m : Machine) :
    (m.step line statement).failure? = none ∧
      (m.step line statement).machine.sequence.length = m.sequence.length + 1 := by
  rw [step_of_asks h, execute_push]
  exact ⟨rfl, Sequence.length_push m.sequence m.mode value⟩

/-- Statements are refused bounded storage exactly if some of them, carried out in plentiful
storage, hold more values than the capacity. -/
theorem runStatements_bounded_iff (h : m.sequence.Stored capacity) :
    (m.runStatements statements (.bounded capacity)).failure? = some .allocation ↔
      ∃ before later, statements = before ++ later ∧ (m.runStatements before).failure? = none ∧
        capacity < (m.runStatements before).machine.sequence.length := by
  -- As long as storage is granted, the run in plentiful storage is the run in bounded storage.
  have hgranted (before : List (Nat × Statement))
      (hbefore : (m.runStatements before (.bounded capacity)).failure? ≠ some .allocation) :
      (m.runStatements before).machine.sequence.Stored capacity := by
    rw [← runStatements_of_ne_allocation hbefore]
    exact stored_runStatements h before
  constructor
  · intro hrefused
    obtain ⟨before, line, statement, later, value, rfl, hsame, hbefore, ⟨hasks, hroom⟩, -⟩ :=
      exists_refused hrefused
    obtain ⟨hpush, hlength⟩ := step_of_asks_push hasks (m.runStatements before).machine
    have hstored := hgranted before (by simp [hsame, hbefore])
    have hfull : ¬ (m.runStatements before).machine.sequence.length < capacity := by
      rw [← hstored.hasRoom_iff, hroom]
      exact Bool.false_ne_true
    have hrun : m.runStatements (before ++ [(line, statement)]) = _ :=
      (runStatements_append m before _).trans (Outcome.andThen_of_success _ hbefore)
    rw [runStatements_cons, Outcome.andThen_of_success _ hpush, runStatements_nil] at hrun
    refine ⟨before ++ [(line, statement)], later, by simp, ?_, ?_⟩
    · rw [hrun]
      rfl
    · rw [hrun]
      have hmore := Nat.lt_add_one_of_le (Nat.le_of_not_lt hfull)
      rw [← hlength] at hmore
      exact hmore
  · rintro ⟨before, later, rfl, hbefore, hlength⟩
    by_contra hnot
    have hstored := hgranted before fun hrefused => by
      rw [runStatements_append, Outcome.andThen_of_failure hrefused] at hnot
      exact hnot hrefused
    exact absurd hstored.length_le (Nat.not_le_of_lt hlength)

end Machine

namespace Run

/-- A run is refused storage for a number of cells exactly if its program, cut behind one of its
lines, succeeds so far and holds more values than there may be cells. -/
theorem ofSource_bounded_iff (source : String) (sink : Sink) (capacity : Nat) :
    (ofSource source sink (.bounded capacity)).failure? = some .allocation ↔
      ∃ count, (body (cut count source) sink).failure? = none ∧
        capacity < (body (cut count source) sink).machine.sequence.length := by
  have hbody (count : Nat) : body (cut count source) sink =
      (Machine.start sink).runStatements ((Statement.numbered source).take count) := by
    rw [body, Machine.runSource, numbered_cut]
  rw [failure?_ofSource_eq_allocation_iff, Machine.runSource,
    Machine.runStatements_bounded_iff (m := Machine.start sink) (Sequence.stored_empty capacity)]
  constructor
  · rintro ⟨before, later, hsource, hbefore, hlength⟩
    refine ⟨before.length, ?_⟩
    rw [hbody, hsource, List.take_left]
    exact ⟨hbefore, hlength⟩
  · rintro ⟨count, hbefore, hlength⟩
    rw [hbody] at hbefore hlength
    exact ⟨_, _, (List.take_append_drop count _).symm, hbefore, hlength⟩

example : (ofSource "push 1\npop\npush 2" .unbounded (.bounded 1)).failure? = none := by
  decide +kernel

end Run

end StackQueue
