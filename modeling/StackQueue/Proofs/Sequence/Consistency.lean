import StackQueue.Proofs.Sequence.Checked

/-!
# Consistency of sequences

What has to be true of the cells, the free slots, the two ends and the length of a sequence, said
of the links themselves. It is true after every history of operations, and every further operation
stays within the cells and counts.
-/

namespace StackQueue.Sequence

variable {s : Sequence} {slots : List Nat} {values : List Int32}

/-- The slots are those in use, front to back. The ends, the links in both directions and the
length fit them, and every other slot is free. -/
structure Consistent (s : Sequence) (slots : List Nat) : Prop where
  nodup : slots.Nodup
  inBounds : ∀ slot ∈ slots, slot < s.cells.size
  length_eq : slots.length = s.length
  front_eq : s.front = slots.head?
  back_eq : s.back = slots.getLast?
  front_eq_none : s.front = none ↔ s.length = 0
  back_eq_none : s.back = none ↔ s.length = 0
  forwards : Walk s.follower s.front slots
  backwards : Walk s.leader s.back slots.reverse
  free_nodup : s.free.Nodup
  disjoint : slots.Disjoint s.free
  count_eq : ∀ slot, (slots ++ s.free).count slot = if slot < s.cells.size then 1 else 0

theorem Represents.consistent (h : s.Represents slots values) : s.Consistent slots := by
  obtain ⟨hnodup, hfree, hdisjoint⟩ := List.nodup_append'.mp h.nodup_append
  constructor
  · exact hnodup
  · intro slot hslot
    exact List.mem_range.mp (h.partition.subset (List.mem_append_left s.free hslot))
  · exact h.length_eq.symm
  · exact h.ring.front_eq
  · exact h.ring.back_eq
  · rw [h.ring.front_eq, List.head?_eq_none_iff, h.length_eq, List.length_eq_zero_iff]
  · rw [h.ring.back_eq, List.getLast?_eq_none_iff, h.length_eq, List.length_eq_zero_iff]
  · exact h.ring.walk_follower
  · exact h.ring.walk_leader
  · exact hfree
  · exact hdisjoint
  · intro slot
    rw [h.partition.count_eq slot]
    exact List.count_range

/-- After every history the links leave exactly one choice of slots in use, which is consistent,
and the next operation finds a cell behind every index and a value behind every count. -/
theorem existsUnique_consistent_after (operations : List Operation) :
    (∃! slots, (empty.after operations).Consistent slots) ∧
      ∀ operation : Operation, operation.checked (empty.after operations) =
        some (operation.apply (empty.after operations)) := by
  obtain ⟨slots, values, h⟩ := exists_represents_after operations
  refine ⟨⟨slots, h.consistent, ?_⟩, h.checked_eq_some⟩
  intro others hothers
  exact hothers.forwards.unique h.ring.walk_follower

end StackQueue.Sequence
