import Mathlib.Data.List.Rotate
import StackQueue.Proofs.Sequence.Refinement

/-!
# Relinking the slots in use

An exchange and both rotations move slots and no values: they only write links between slots that
are in use. The rotations undo each other. As many rotations in one direction as there are values
lead back, and so do two exchanges. What they lead back to is the same sequence in every cell and
not only in its values.

## Implementation notes

The order of the slots settles every link of the slots in use, and `Relinked` says that nothing
else has changed. So two sequences that are relinked and have their slots in the same order are
equal, and no proof has to compare the writes of one operation with those of another.
-/

namespace StackQueue.Sequence

variable {s t u : Sequence} {before after : Option Nat} {slot : Nat} {slots : List Nat}
variable {values others : List Int32}

/-- The second sequence is the first one with other ends and other links between slots in use. -/
structure Relinked (s t : Sequence) : Prop where
  free_eq : t.free = s.free
  length_eq : t.length = s.length
  size_eq : t.cells.size = s.cells.size
  values_eq : t.valueAt? = s.valueAt?
  follower_eq : ∀ slot ∈ s.free, t.follower (some slot) = s.follower (some slot)
  leader_eq : ∀ slot ∈ s.free, t.leader (some slot) = s.leader (some slot)

theorem Relinked.refl (s : Sequence) : s.Relinked s :=
  ⟨rfl, rfl, rfl, rfl, fun _ _ => rfl, fun _ _ => rfl⟩

theorem Relinked.trans (h : s.Relinked t) (h' : t.Relinked u) : s.Relinked u where
  free_eq := h'.free_eq.trans h.free_eq
  length_eq := h'.length_eq.trans h.length_eq
  size_eq := h'.size_eq.trans h.size_eq
  values_eq := h'.values_eq.trans h.values_eq
  follower_eq slot hslot :=
    (h'.follower_eq slot (h.free_eq ▸ hslot)).trans (h.follower_eq slot hslot)
  leader_eq slot hslot := (h'.leader_eq slot (h.free_eq ▸ hslot)).trans (h.leader_eq slot hslot)

theorem Outside.ne (h : Outside slots before) (hslot : slot ∈ slots) : some slot ≠ before := by
  rintro rfl
  exact h slot rfl hslot

/-- A join of places that are not free changes no link of a free slot. -/
theorem Relinked.join (h : s.Relinked t) (hbefore : Outside s.free before)
    (hafter : Outside s.free after) : s.Relinked (t.join before after) where
  free_eq := (free_join t before after).trans h.free_eq
  length_eq := (length_join t before after).trans h.length_eq
  size_eq := (size_cells_join t before after).trans h.size_eq
  values_eq := (values_join t before after).trans h.values_eq
  follower_eq slot hslot := by
    rw [follower_join, if_neg (hbefore.ne hslot)]
    exact h.follower_eq slot hslot
  leader_eq slot hslot := by
    rw [leader_join, if_neg (hafter.ne hslot)]
    exact h.leader_eq slot hslot

/-- The links of the slots of a ring are settled by the order of these slots. -/
theorem Ring.links_eq (hs : s.Ring slots) (ht : t.Ring slots) (hslot : slot ∈ slots) :
    t.follower (some slot) = s.follower (some slot) ∧
      t.leader (some slot) = s.leader (some slot) := by
  obtain ⟨init, rest, rfl⟩ := List.append_of_mem hslot
  exact ⟨ht.adjacent_behind.1.trans hs.adjacent_behind.1.symm,
    ht.adjacent_before.2.trans hs.adjacent_before.2.symm⟩

/-- A slot that is neither in use nor free is none. -/
theorem Represents.mem_or_mem_free (h : s.Represents slots values) (hslot : slot < s.cells.size) :
    slot ∈ slots ∨ slot ∈ s.free :=
  List.mem_append.mp (h.partition.mem_iff.mpr (List.mem_range.mpr hslot))

/-- Sequences that are relinked and have their slots in the same order are equal. -/
theorem Relinked.eq (h : s.Relinked t) (hs : s.Represents slots values)
    (ht : t.Represents slots others) : t = s := by
  have hlinks (slot : Nat) : t.follower (some slot) = s.follower (some slot) ∧
      t.leader (some slot) = s.leader (some slot) := by
    by_cases hsize : slot < s.cells.size
    · rcases hs.mem_or_mem_free hsize with hslot | hslot
      · exact hs.ring.links_eq ht.ring hslot
      · exact ⟨h.follower_eq slot hslot, h.leader_eq slot hslot⟩
    · have hsize' : ¬slot < t.cells.size := by rwa [h.size_eq]
      simp only [follower, leader, Array.getElem?_eq_none (Nat.le_of_not_lt hsize),
        Array.getElem?_eq_none (Nat.le_of_not_lt hsize'), and_self]
  apply eq_of_links
  · intro place
    cases place with
    | none => exact ht.ring.first.1.trans hs.ring.first.1.symm
    | some slot => exact (hlinks slot).1
  · intro place
    cases place with
    | none => exact ht.ring.last.2.trans hs.ring.last.2.symm
    | some slot => exact (hlinks slot).2
  · exact congrFun h.values_eq
  · exact h.free_eq
  · exact h.length_eq

namespace Represents

/-! ### Exchange and rotation -/

/-- The slots in use are not free. -/
theorem outside_free (h : s.Represents slots values) {place : Option Nat}
    (hplace : ∀ slot ∈ place, slot ∈ slots) : Outside s.free place := by
  obtain ⟨-, -, hdisjoint⟩ := List.nodup_append'.mp h.nodup_append
  exact fun slot hslot => hdisjoint (hplace slot hslot)

theorem relinked_swapFront (h : s.Represents slots values) : s.Relinked s.swapFront.2 := by
  unfold Sequence.swapFront
  rcases h.shapes with ⟨rfl, rfl⟩ | ⟨slot, x, rfl, rfl⟩ |
    ⟨first, second, rest, x, y, others, rfl, rfl⟩
  · simpa only [h.frontCells?_nil] using .refl s
  · simpa only [h.frontCells?_singleton] using .refl s
  · have hfirst : Outside s.free (some first) := h.outside_free (by simp)
    have hsecond : Outside s.free (some second) := h.outside_free (by simp)
    have hthird : Outside s.free rest.head? := h.outside_free fun slot hslot =>
      List.mem_cons_of_mem first (List.mem_cons_of_mem second (List.mem_of_mem_head? hslot))
    simp only [h.frontCells?_eq_some]
    exact (((Relinked.refl s).join (outside_none _) hsecond).join hsecond hfirst).join
      hfirst hthird

theorem relinked_rotateLeft (h : s.Represents slots values) : s.Relinked s.rotateLeft := by
  rcases h.shapes with ⟨rfl, rfl⟩ | ⟨slot, x, rfl, rfl⟩ |
    ⟨first, second, rest, x, y, others, rfl, rfl⟩
  · simpa only [h.rotateLeft_nil] using .refl s
  · simpa only [h.rotateLeft_singleton] using .refl s
  · have hfirst : Outside s.free (some first) := h.outside_free (by simp)
    have hsecond : Outside s.free (some second) := h.outside_free (by simp)
    have hlast : Outside s.free (second :: rest).getLast? := h.outside_free fun slot hslot =>
      List.mem_cons_of_mem first (List.mem_of_mem_getLast? hslot)
    rw [h.rotateLeft_eq (List.cons_ne_nil second rest)]
    exact (((Relinked.refl s).join (outside_none _) hsecond).join hlast hfirst).join
      hfirst (outside_none _)

theorem relinked_rotateRight (h : s.Represents slots values) : s.Relinked s.rotateRight := by
  rcases h.eq_nil_or_concat with ⟨rfl, rfl⟩ | ⟨init, last, values, x, rfl, rfl⟩
  · simpa only [h.rotateRight_nil] using .refl s
  · by_cases hne : init = []
    · subst hne
      obtain rfl : values = [] := by simpa [h.length_eq] using h.length_values
      simpa only [h.rotateRight_singleton] using .refl s
    · have hlast : Outside s.free (some last) := h.outside_free (by simp)
      have hfirst : Outside s.free init.head? := h.outside_free fun slot hslot =>
        List.mem_append_left [last] (List.mem_of_mem_head? hslot)
      have hpenultimate : Outside s.free init.getLast? := h.outside_free fun slot hslot =>
        List.mem_append_left [last] (List.mem_of_mem_getLast? hslot)
      rw [h.rotateRight_eq hne]
      exact (((Relinked.refl s).join hpenultimate (outside_none _)).join hlast hfirst).join
        (outside_none _) hlast

theorem swapFront_swapFront (h : s.Represents slots values) : s.swapFront.2.swapFront.2 = s := by
  have hrelinked := h.relinked_swapFront
  rcases h.shapes with ⟨rfl, rfl⟩ | ⟨slot, x, rfl, rfl⟩ |
    ⟨first, second, rest, x, y, others, rfl, rfl⟩
  · simp only [Sequence.swapFront, h.frontCells?_nil]
  · simp only [Sequence.swapFront, h.frontCells?_singleton]
  · have hswap := h.swapFront
    exact (hrelinked.trans hswap.relinked_swapFront).eq h hswap.swapFront

theorem swapFront_iff (h : s.Represents slots values) :
    s.swapFront.1 = true ↔ 2 ≤ s.length := by
  unfold Sequence.swapFront
  rw [h.length_eq]
  rcases h.shapes with ⟨rfl, rfl⟩ | ⟨slot, x, rfl, rfl⟩ |
    ⟨first, second, rest, x, y, others, rfl, rfl⟩
  · simp [h.frontCells?_nil]
  · simp [h.frontCells?_singleton]
  · simp [h.frontCells?_eq_some]

theorem rotateRight_rotateLeft (h : s.Represents slots values) : s.rotateLeft.rotateRight = s := by
  have hrelinked := h.relinked_rotateLeft
  cases values with
  | nil =>
      obtain rfl := h.slots_eq_nil
      rw [h.rotateLeft_nil, h.rotateRight_nil]
  | cons x values =>
      obtain ⟨slot, rest, rfl⟩ := h.exists_cons
      have hrotate := h.rotateLeft
      exact (hrelinked.trans hrotate.relinked_rotateRight).eq h hrotate.rotateRight

theorem rotateLeft_rotateRight (h : s.Represents slots values) : s.rotateRight.rotateLeft = s := by
  have hrelinked := h.relinked_rotateRight
  rcases h.eq_nil_or_concat with ⟨rfl, rfl⟩ | ⟨init, last, values, x, rfl, rfl⟩
  · rw [h.rotateRight_nil, h.rotateLeft_nil]
  · have hrotate := h.rotateRight
    exact (hrelinked.trans hrotate.relinked_rotateLeft).eq h hrotate.rotateLeft

/-! ### Full turns -/

theorem iterate_rotateLeft (h : s.Represents slots values) (count : Nat) :
    (Sequence.rotateLeft^[count] s).Represents (slots.rotate count) (values.rotate count) := by
  induction count generalizing s slots values with
  | zero =>
      rw [List.rotate_zero, List.rotate_zero]
      exact h
  | succ count ih =>
      rw [Function.iterate_succ_apply]
      cases values with
      | nil =>
          obtain rfl := h.slots_eq_nil
          have hnil := ih h
          simp only [List.rotate_nil] at hnil ⊢
          rwa [h.rotateLeft_nil]
      | cons x values =>
          obtain ⟨slot, rest, rfl⟩ := h.exists_cons
          rw [List.rotate_cons_succ, List.rotate_cons_succ]
          exact ih h.rotateLeft

theorem relinked_iterate_rotateLeft (h : s.Represents slots values) (count : Nat) :
    s.Relinked (Sequence.rotateLeft^[count] s) := by
  induction count with
  | zero => exact .refl s
  | succ count ih =>
      rw [Function.iterate_succ_apply']
      exact ih.trans (h.iterate_rotateLeft count).relinked_rotateLeft

/-- Rotations in one direction are undone by as many in the other. -/
theorem iterate_rotateRight_iterate_rotateLeft (h : s.Represents slots values) (count : Nat) :
    Sequence.rotateRight^[count] (Sequence.rotateLeft^[count] s) = s := by
  induction count with
  | zero => rfl
  | succ count ih =>
      rw [Function.iterate_succ_apply, Function.iterate_succ_apply',
        (h.iterate_rotateLeft count).rotateRight_rotateLeft, ih]

/-- As many rotations to the left as there are values make a full turn. -/
theorem iterate_rotateLeft_length (h : s.Represents slots values) :
    Sequence.rotateLeft^[s.length] s = s := by
  have hturn := h.iterate_rotateLeft s.length
  rw [h.length_eq, List.rotate_length, ← h.length_eq] at hturn
  exact (h.relinked_iterate_rotateLeft s.length).eq h hturn

theorem iterate_rotateRight_length (h : s.Represents slots values) :
    Sequence.rotateRight^[s.length] s = s := by
  have hback := h.iterate_rotateRight_iterate_rotateLeft s.length
  rwa [h.iterate_rotateLeft_length] at hback

end Represents

/-- After every history, a rotation in one direction undoes one in the other, as many rotations as
there are values make a full turn in either direction, and a second exchange undoes the first, which
is possible where there are two values. Each of these leads back to the same cells, links, ends and
free slots. None of them changes the free slots, the length, the number of cells or the value of any
slot, and the cells of the free slots stay as they are. -/
theorem rotations_and_exchanges_invert (operations : List Operation) :
    let s := empty.after operations
    s.rotateLeft.rotateRight = s ∧ s.rotateRight.rotateLeft = s ∧
    Sequence.rotateLeft^[s.length] s = s ∧ Sequence.rotateRight^[s.length] s = s ∧
    s.swapFront.2.swapFront.2 = s ∧ (s.swapFront.1 = true ↔ 2 ≤ s.length) ∧
    s.Relinked s.rotateLeft ∧ s.Relinked s.rotateRight ∧ s.Relinked s.swapFront.2 := by
  intro s
  obtain ⟨slots, values, h⟩ := exists_represents_after operations
  exact ⟨h.rotateRight_rotateLeft, h.rotateLeft_rotateRight, h.iterate_rotateLeft_length,
    h.iterate_rotateRight_length, h.swapFront_swapFront, h.swapFront_iff, h.relinked_rotateLeft,
    h.relinked_rotateRight, h.relinked_swapFront⟩

end StackQueue.Sequence
