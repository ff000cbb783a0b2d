import StackQueue.Proofs.Sequence.Consistency

/-!
# How many values a cursor still meets

A cursor follows the links and counts down, and the two never disagree. However often it has been
asked, it has answered the values front to back and nothing behind the last, and the size that it
reports is the number of values still to come. The count is used up exactly when no slot is left.

## Implementation notes

The links and the count meet in one fact: a cursor that has been asked `count` times stands before
the slots that are left when `count` are dropped, and counts them.
-/

namespace StackQueue

namespace Cursor

variable {s : Sequence} {cursor : Cursor}

/-- The last of several requests is a request to the cursor that the others left. -/
theorem take_succ (cursor : Cursor) (s : Sequence) (count : Nat) :
    cursor.take s (count + 1) =
      ((cursor.take s count).1 ++ [((cursor.take s count).2.next s).1],
        ((cursor.take s count).2.next s).2) := by
  induction count generalizing cursor with
  | zero => rfl
  | succ count ih =>
      change ((cursor.next s).1 :: ((cursor.next s).2.take s (count + 1)).1,
        ((cursor.next s).2.take s (count + 1)).2) = _
      rw [ih]
      rfl

theorem length?_eq (cursor : Cursor) : cursor.length? = some cursor.remaining :=
  if_pos rfl

end Cursor

namespace Sequence

variable {s : Sequence} {place : Option Nat} {slots : List Nat} {values : List Int32}

/-- The rest of a walk is a walk from the first slot that is left. -/
theorem Walk.drop {link : Option Nat → Option (Option Nat)} (walk : Walk link place slots)
    (count : Nat) : Walk link (slots.drop count).head? (slots.drop count) := by
  induction walk generalizing count with
  | stop =>
      rw [List.drop_nil]
      exact .stop
  | move h tail ih =>
      cases count with
      | zero => exact .move h tail
      | succ count => exact ih count

/-- A cursor on a walk finds a cell for its slot and has counted on it. -/
theorem checked_next_of_walk (walk : Walk s.follower place slots) :
    Checked.next s ⟨place, slots.length⟩ = some (Cursor.next ⟨place, slots.length⟩ s) := by
  cases walk with
  | stop => rfl
  | move h tail =>
      obtain ⟨cell, hcell, -⟩ := Option.map_eq_some_iff.mp h
      simp [Checked.next, Cursor.next, hcell]

/-- A cursor on a walk answers with the value of the slot that it stands before. -/
theorem fst_next_of_walk (walk : Walk s.follower place slots)
    (hvalues : slots.map s.valueAt? = values.map some) (remaining : Nat) :
    (Cursor.next ⟨place, remaining⟩ s).1 = values.head? := by
  cases walk with
  | stop =>
      obtain rfl : values = [] := by simpa using hvalues.symm
      rfl
  | move h tail =>
      cases values with
      | nil => simp at hvalues
      | cons x values =>
          simp only [List.map_cons, List.cons.injEq] at hvalues
          rw [next_of_follower hvalues.1 h, List.head?_cons]

/-- A cursor on a walk counts down by one if it answers, and otherwise stays where it is. -/
theorem remaining_next_of_walk (walk : Walk s.follower place slots) :
    let cursor : Cursor := ⟨place, slots.length⟩
    (cursor.next s).2.remaining + (if (cursor.next s).1.isSome then 1 else 0) =
      cursor.remaining := by
  cases walk with
  | stop => rfl
  | move h tail =>
      obtain ⟨cell, hcell, -⟩ := Option.map_eq_some_iff.mp h
      simp [Cursor.next, hcell]

theorem map_getElem?_range (values : List Int32) (count : Nat) :
    ((List.range count).map fun index => values[index]?) =
      (values.take (min count values.length)).map some ++
        List.replicate (count - values.length) none := by
  apply List.ext_getElem
  · simp
    omega
  · intro index h h'
    simp only [List.length_map, List.length_range] at h
    by_cases hindex : index < values.length
    · rw [List.getElem_append_left (by simp; omega)]
      simp [hindex]
    · rw [List.getElem_append_right (by simp; omega)]
      simp
      omega

namespace Represents

/-- A cursor that has been asked `count` times stands before what is left of the slots and counts
it. -/
theorem snd_take (h : s.Represents slots values) (count : Nat) :
    (s.cursor.take s count).2 = ⟨(slots.drop count).head?, (slots.drop count).length⟩ := by
  have hlength := congrArg List.length h.values_eq
  simp only [List.length_map] at hlength
  rw [cursor, ← h.length_values, take_of_walk h.ring.walk_follower h.values_eq, List.length_drop,
    hlength]

/-- The answers of a cursor are the values in order, and nothing behind the last. -/
theorem fst_take (h : s.Represents slots values) (count : Nat) :
    (s.cursor.take s count).1 = (values.take (min count values.length)).map some ++
      List.replicate (count - values.length) none := by
  rw [cursor, ← h.length_values, take_of_walk h.ring.walk_follower h.values_eq,
    map_getElem?_range]

end Represents

/-- After every history, and after any number of requests to the cursor of the sequence that it
leaves: the answers are the first values front to back, one for each request, and nothing for the
requests beyond. The size that the cursor reports, as two bounds and as one number, is the number of
values that have not been answered. One more request makes it smaller by one if it gets a value,
and otherwise leaves it. The count is zero exactly where there is no slot to go on to, no request
counts below zero or looks beyond the cells, and the sequence stays as it is. -/
theorem cursor_counts_exactly (operations : List Operation) (count : Nat) :
    let s := empty.after operations
    let answers := (s.cursor.take s count).1
    let cursor := (s.cursor.take s count).2
    let answered := min count s.length
    ∃ slots, s.Consistent slots ∧ slots.map s.valueAt? = s.toList.map some ∧
      answers = (s.toList.take answered).map some ++ List.replicate (count - s.length) none ∧
      cursor.sizeHint = (s.length - answered, some (s.length - answered)) ∧
      cursor.length? = some (s.length - answered) ∧
      s.cursor.take s (count + 1) = (answers ++ [(cursor.next s).1], (cursor.next s).2) ∧
      (cursor.next s).1 = s.toList[count]? ∧
      (cursor.next s).2.remaining + (if (cursor.next s).1.isSome then 1 else 0) =
        cursor.remaining ∧
      cursor.slot = slots[count]? ∧ (cursor.remaining = 0 ↔ cursor.slot = none) ∧
      Checked.next s cursor = some (cursor.next s) ∧
      Operation.apply s (.iterate count) = (.met s.length answers cursor.remaining, s) := by
  intro s answers cursor answered
  obtain ⟨slots, values, h⟩ : ∃ slots values, s.Represents slots values :=
    exists_represents_after operations
  have hwalk := h.ring.walk_follower.drop count
  have hcursor : cursor = ⟨(slots.drop count).head?, (slots.drop count).length⟩ :=
    h.snd_take count
  have hremaining : cursor.remaining = s.length - answered := by
    simp only [hcursor, List.length_drop, answered, h.length_eq]
    omega
  have hvalues : (slots.drop count).map s.valueAt? = (values.drop count).map some := by
    rw [List.map_drop, h.values_eq, List.map_drop]
  refine ⟨slots, h.consistent, ?_, ?_, ?_, ?_, Cursor.take_succ s.cursor s count, ?_, ?_, ?_, ?_,
    ?_, rfl⟩
  · rw [h.toList_eq, h.values_eq]
  · rw [h.toList_eq]
    simp only [answered, ← h.length_values]
    exact h.fst_take count
  · rw [Cursor.sizeHint, hremaining]
  · rw [Cursor.length?_eq, hremaining]
  · rw [h.toList_eq, hcursor, fst_next_of_walk hwalk hvalues, List.head?_drop]
  · rw [hcursor]
    exact remaining_next_of_walk hwalk
  · rw [hcursor, List.head?_drop]
  · rw [hcursor, List.length_eq_zero_iff, List.head?_eq_none_iff]
  · rw [hcursor]
    exact checked_next_of_walk hwalk

end Sequence

end StackQueue
