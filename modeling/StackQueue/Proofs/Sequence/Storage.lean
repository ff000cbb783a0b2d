import Mathlib.Order.Bounds.Basic
import StackQueue.Proofs.Sequence.Relinking

/-!
# Slots taken and given back

An insertion takes a slot and a removal gives one back. The slot taken is the one that, of those
that are free, was given back last, and a new one only if none is free. So a sequence has as many
cells as it has held values at once since they were last dropped.

## Implementation notes

Which slot was given back last is read off the history, and there only off which slots are free
and not off their order in the list of free slots. `Recalls` relates the two orders.
-/

namespace StackQueue

variable {s t : Sequence} {slots log newer rest : List Nat} {latest? : Option Nat}
variable {values : List Int32} {operation : Operation}

namespace Sequence

/-! ### What an operation does to the slots -/

/-- A slot has been taken for a new value: a new one if none was free, or else the one that was
given back last. -/
inductive Takes (s : Sequence) (latest? : Option Nat) (t : Sequence) : Option Nat → Prop
  | append (hnone : s.free = []) (hfree : t.free = [])
      (hsize : t.cells.size = s.cells.size + 1) : Takes s latest? t (some s.cells.size)
  | reuse {slot : Nat} (hlatest : latest? = some slot) (hfree : s.free = slot :: t.free)
      (hsize : t.cells.size = s.cells.size) : Takes s latest? t (some slot)

/-- This slot and no other has been given back. -/
structure GivesBack (s t : Sequence) (slot : Nat) : Prop where
  free_eq : t.free = slot :: s.free
  size_eq : t.cells.size = s.cells.size

/-- No slot has been taken or given back. -/
structure KeepsSlots (s t : Sequence) : Prop where
  free_eq : t.free = s.free
  size_eq : t.cells.size = s.cells.size

end Sequence

namespace Operation

/-- What an operation does to the slots. The last slot given back is the one that an insertion has
to take, and the new front or back is the slot that it takes. -/
def Stores (s : Sequence) (latest? : Option Nat) (reply : Reply) (t : Sequence) :
    Operation → Prop
  | push .stack _ | pushFront _ => s.Takes latest? t t.front
  | push .queue _ | pushBack _ => s.Takes latest? t t.back
  | popFront =>
      s.front = none ∧ reply = .value none ∧ t = s ∨
      ∃ value first, reply = .value (some value) ∧ s.front = some first ∧ s.GivesBack t first
  | collapseFront _ =>
      s.length < 2 ∧ reply = .possible false ∧ t = s ∨
      ∃ first second, reply = .possible true ∧ s.front = some first ∧
        s.follower (some first) = some (some second) ∧ t.front = some second ∧ s.GivesBack t first
  | releaseAll => t = .empty
  | frontValue | topTwo | swapFront | rotateLeft | rotateRight | iterate _ => s.KeepsSlots t

end Operation

namespace Sequence

theorem KeepsSlots.refl (s : Sequence) : s.KeepsSlots s :=
  ⟨rfl, rfl⟩

theorem KeepsSlots.join (h : s.KeepsSlots t) (before after : Option Nat) :
    s.KeepsSlots (t.join before after) :=
  ⟨(free_join t before after).trans h.free_eq, (size_cells_join t before after).trans h.size_eq⟩

/-- What only relinks slots in use takes and gives back none. -/
theorem Relinked.keepsSlots (h : s.Relinked t) : s.KeepsSlots t :=
  ⟨h.free_eq, h.size_eq⟩

/-- An allocation takes the first free slot, or a new one if there is none. -/
theorem takes_allocate (s : Sequence) (value : Int32)
    (h : (s.allocate value).2.KeepsSlots t) :
    s.Takes s.free.head? t (some (s.allocate value).1) := by
  obtain ⟨hfree, hsize⟩ := h
  cases hs : s.free with
  | nil =>
      rw [allocate_of_free_eq_nil hs] at hfree hsize ⊢
      exact .append hs (hfree.trans hs) (hsize.trans (Array.size_push _))
  | cons slot free =>
      rw [allocate_of_free_eq_cons hs] at hfree hsize ⊢
      exact .reuse rfl (by rw [hs, hfree]) (hsize.trans Array.size_modify)

namespace Represents

theorem takes_pushFront (h : s.Represents slots values) (value : Int32) :
    s.Takes s.free.head? (s.pushFront value) (s.pushFront value).front := by
  rw [(h.pushFront value).ring.front_eq]
  apply takes_allocate
  rw [pushFront_eq]
  exact ((KeepsSlots.refl _).join _ _).join _ _

theorem takes_pushBack (h : s.Represents slots values) (value : Int32) :
    s.Takes s.free.head? (s.pushBack value) (s.pushBack value).back := by
  rw [(h.pushBack value).ring.back_eq, List.getLast?_concat]
  apply takes_allocate
  rw [pushBack_eq]
  exact ((KeepsSlots.refl _).join _ _).join _ _

theorem stores_popFront (h : s.Represents slots values) :
    Operation.popFront.Stores s latest? (Operation.popFront.apply s).1
      (Operation.popFront.apply s).2 := by
  cases values with
  | nil =>
      obtain rfl := h.slots_eq_nil
      left
      simp only [Operation.apply, h.popFront_nil, h.ring.front_eq, List.head?_nil, and_self]
  | cons x values =>
      obtain ⟨slot, rest, rfl⟩ := h.exists_cons
      right
      refine ⟨x, slot, congrArg Reply.value h.fst_popFront, h.ring.front_eq, ?_⟩
      simp only [Operation.apply, Sequence.popFront, h.frontCell?_eq_some]
      exact ⟨congrArg (List.cons slot) (free_join _ _ _), size_cells_join _ _ _⟩

theorem stores_collapseFront (h : s.Represents slots values) (value : Int32) :
    (Operation.collapseFront value).Stores s latest? ((Operation.collapseFront value).apply s).1
      ((Operation.collapseFront value).apply s).2 := by
  have hnone (hcells : s.frontCells? = none) := (apply_of_frontCells?_eq_none hcells value).2.2
  rcases h.shapes with ⟨rfl, rfl⟩ | ⟨slot, x, rfl, rfl⟩ |
    ⟨first, second, rest, x, y, others, rfl, rfl⟩
  · rw [hnone h.frontCells?_nil]
    exact Or.inl ⟨by simp [h.length_eq], rfl, rfl⟩
  · rw [hnone h.frontCells?_singleton]
    exact Or.inl ⟨by simp [h.length_eq], rfl, rfl⟩
  · rw [(h.apply_of_two value).2.2]
    refine Or.inr ⟨first, second, rfl, h.ring.front_eq, h.ring.adjacent_head?.1,
      (h.collapseFront value).ring.front_eq, ?_⟩
    simp only [Sequence.collapseFront, h.frontCells?_eq_some]
    refine ⟨congrArg (List.cons first) (free_join _ _ _), ?_⟩
    exact (size_cells_join _ _ _).trans Array.size_modify

/-- Insertions take the first free slot if there is one. -/
theorem stores (h : s.Represents slots values) (operation : Operation) :
    operation.Stores s s.free.head? (operation.apply s).1 (operation.apply s).2 := by
  cases operation with
  | push mode value =>
      cases mode with
      | stack => exact h.takes_pushFront value
      | queue => exact h.takes_pushBack value
  | pushFront value => exact h.takes_pushFront value
  | pushBack value => exact h.takes_pushBack value
  | popFront => exact h.stores_popFront
  | collapseFront value => exact h.stores_collapseFront value
  | swapFront => exact h.relinked_swapFront.keepsSlots
  | rotateLeft => exact h.relinked_rotateLeft.keepsSlots
  | rotateRight => exact h.relinked_rotateRight.keepsSlots
  | frontValue | topTwo | iterate => exact .refl s
  | releaseAll => rfl

end Represents

/-- The four ways in which an operation can change the free slots and the number of cells, if it
does not drop them all. -/
inductive Shifts (s t : Sequence) : Prop
  | keep (h : s.KeepsSlots t)
  | append (hnone : s.free = []) (hfree : t.free = []) (hsize : t.cells.size = s.cells.size + 1)
  | reuse (slot : Nat) (hfree : s.free = slot :: t.free) (hsize : t.cells.size = s.cells.size)
  | giveBack (slot : Nat) (h : s.GivesBack t slot)

theorem Takes.shifts {slot? : Option Nat} (h : s.Takes latest? t slot?) : s.Shifts t := by
  cases h with
  | append hnone hfree hsize => exact .append hnone hfree hsize
  | reuse hlatest hfree hsize => exact .reuse _ hfree hsize

theorem Represents.shifts (h : s.Represents slots values) (hne : operation ≠ .releaseAll) :
    s.Shifts (operation.apply s).2 := by
  have hstores := h.stores operation
  cases operation with
  | push mode value => cases mode <;> exact Takes.shifts hstores
  | pushFront | pushBack => exact Takes.shifts hstores
  | popFront =>
      rcases hstores with ⟨-, -, heq⟩ | ⟨value, first, -, -, hback⟩
      · rw [heq]
        exact .keep (.refl s)
      · exact .giveBack first hback
  | collapseFront =>
      rcases hstores with ⟨-, -, heq⟩ | ⟨first, second, -, -, -, -, hback⟩
      · rw [heq]
        exact .keep (.refl s)
      · exact .giveBack first hback
  | releaseAll => exact absurd rfl hne
  | frontValue | topTwo | swapFront | rotateLeft | rotateRight | iterate => exact .keep hstores

/-! ### The number of cells -/

/-- Every cell holds a value or is free. -/
theorem Represents.size_eq (h : s.Represents slots values) :
    s.free.length + s.length = s.cells.size := by
  have hlength := h.partition.length_eq
  rw [List.length_append, List.length_range] at hlength
  rw [h.length_eq, Nat.add_comm, hlength]

/-- An operation that does not drop the cells leaves as many as there were, or as many as it leaves
values if these are more. -/
theorem Represents.size_apply (h : s.Represents slots values) (hne : operation ≠ .releaseAll) :
    (operation.apply s).2.cells.size =
      max (operation.apply s).2.length s.cells.size := by
  obtain ⟨-, others, hafter⟩ := h.agrees operation
  have hbefore := h.size_eq
  have hafter := hafter.size_eq
  cases h.shifts hne with
  | keep h =>
      rw [h.size_eq] at hafter ⊢
      omega
  | append hnone hfree hsize =>
      rw [hnone, List.length_nil] at hbefore
      rw [hfree, List.length_nil] at hafter
      omega
  | reuse slot hfree hsize => omega
  | giveBack slot h =>
      rw [h.size_eq] at hafter ⊢
      omega

/-- The lengths that a history has gone through since it last dropped all values, or since its
start if it never did. -/
def recentLengths (operations : List Operation) : Set Nat :=
  {length | ∃ earlier later, operations = earlier ++ later ∧ .releaseAll ∉ later ∧
    (empty.after earlier).length = length}

theorem after_concat (s : Sequence) (operations : List Operation) (operation : Operation) :
    s.after (operations ++ [operation]) = (operation.apply (s.after operations)).2 := by
  simp only [after, List.foldl_append, List.foldl_cons, List.foldl_nil]

theorem recentLengths_nil : recentLengths [] = {0} := by
  ext length
  simp [recentLengths, after, empty, eq_comm]

/-- The last operation adds the length that it leaves, and only a drop takes the others away. -/
theorem mem_recentLengths_concat {length : Nat} (operations : List Operation)
    (operation : Operation) :
    length ∈ recentLengths (operations ++ [operation]) ↔
      length = (empty.after (operations ++ [operation])).length ∨
        operation ≠ .releaseAll ∧ length ∈ recentLengths operations := by
  constructor
  · rintro ⟨earlier, later, heq, hlater, rfl⟩
    rcases List.eq_nil_or_concat later with rfl | ⟨later, last, rfl⟩
    · rw [List.append_nil] at heq
      exact .inl (by rw [heq])
    · rw [List.concat_eq_append] at heq hlater
      rw [← List.append_assoc] at heq
      obtain ⟨rfl, hlast⟩ := List.append_inj' heq rfl
      obtain rfl : operation = last := (List.cons.inj hlast).1
      refine .inr ⟨?_, earlier, later, rfl, fun h => hlater (List.mem_append_left _ h), rfl⟩
      rintro rfl
      exact hlater (by simp)
  · rintro (rfl | ⟨hne, earlier, later, rfl, hlater, rfl⟩)
    · exact ⟨operations ++ [operation], [], by simp, by simp, rfl⟩
    · exact ⟨earlier, later ++ [operation], by simp, by simp [hlater, hne.symm], rfl⟩

theorem recentLengths_releaseAll (operations : List Operation) :
    recentLengths (operations ++ [.releaseAll]) = {0} := by
  ext length
  rw [mem_recentLengths_concat, after_concat]
  simp [Operation.apply, releaseAll, empty]

theorem recentLengths_concat (operations : List Operation) (hne : operation ≠ .releaseAll) :
    recentLengths (operations ++ [operation]) =
      insert (empty.after (operations ++ [operation])).length (recentLengths operations) := by
  ext length
  rw [mem_recentLengths_concat, Set.mem_insert_iff, and_iff_right hne]

/-- There are as many cells as there have been values at once since all were last dropped. -/
theorem isGreatest_size (operations : List Operation) :
    IsGreatest (recentLengths operations) (empty.after operations).cells.size := by
  induction operations using List.reverseRecOn with
  | nil =>
      rw [recentLengths_nil]
      exact isGreatest_singleton
  | append_singleton operations operation ih =>
      by_cases hne : operation = .releaseAll
      · subst hne
        rw [recentLengths_releaseAll, after_concat]
        exact isGreatest_singleton
      · obtain ⟨slots, values, h⟩ := exists_represents_after operations
        rw [recentLengths_concat operations hne, after_concat, h.size_apply hne]
        exact ih.insert _

/-! ### The slot given back last -/

/-- The slots that operations make free, the one given back last first. -/
def givenBack (s : Sequence) : List Operation → List Nat
  | [] => []
  | operation :: operations =>
      let t := (operation.apply s).2
      t.givenBack operations ++ t.free.filter fun slot => slot ∉ s.free

/-- The slots of a log, newest first, that are still free, in the order of the log and each where
it stands first. -/
inductive Recalls : List Nat → List Nat → Prop
  | nil (log : List Nat) : Recalls log []
  | cons {newer log rest : List Nat} {slot : Nat} (hnewer : ∀ other ∈ newer, other ∉ slot :: rest)
      (h : Recalls log rest) : Recalls (newer ++ slot :: log) (slot :: rest)

/-- What is not free can stand in front of a log. -/
theorem Recalls.append (h : Recalls log rest) (hnewer : ∀ slot ∈ newer, slot ∉ rest) :
    Recalls (newer ++ log) rest := by
  cases h with
  | nil => exact .nil _
  | cons hbefore h =>
      rw [← List.append_assoc]
      refine .cons ?_ h
      intro slot hslot
      rcases List.mem_append.mp hslot with hslot | hslot
      · exact hnewer slot hslot
      · exact hbefore slot hslot

/-- The slot given back last can be taken again. -/
theorem Recalls.tail {slot : Nat} (h : Recalls log (slot :: rest)) (hslot : slot ∉ rest) :
    Recalls log rest := by
  cases h with
  | @cons newer log _ _ hnewer h =>
      have hbefore : ∀ other ∈ newer ++ [slot], other ∉ rest := by
        intro other hother
        rcases List.mem_append.mp hother with hother | hother
        · exact fun hrest => hnewer other hother (List.mem_cons_of_mem slot hrest)
        · rwa [List.mem_singleton.mp hother]
      rw [List.append_cons]
      exact h.append hbefore

/-- The first slot of the log that is free is the first free slot. -/
theorem Recalls.find?_eq (h : Recalls log rest) :
    (log.find? fun slot => slot ∈ rest) = rest.head? := by
  cases h with
  | nil => simp
  | @cons newer log rest slot hnewer h =>
      have hnone : (newer.find? fun other => other ∈ slot :: rest) = none := by
        simpa using hnewer
      rw [List.find?_append, hnone, Option.none_or, List.find?_cons_of_pos (by simp),
        List.head?_cons]

theorem Represents.nodup_free (h : s.Represents slots values) : s.free.Nodup :=
  (List.nodup_append'.mp h.nodup_append).2.1

/-- What an operation gives back goes in front of the log. -/
theorem Represents.recalls_apply (h : s.Represents slots values) (hlog : Recalls log s.free)
    (operation : Operation) :
    Recalls (((operation.apply s).2.free.filter fun slot => slot ∉ s.free) ++ log)
      (operation.apply s).2.free := by
  by_cases hne : operation = .releaseAll
  · subst hne
    exact .nil _
  obtain ⟨-, others, hafter⟩ := h.agrees operation
  have hnodup := hafter.nodup_free
  cases h.shifts hne with
  | keep h =>
      rw [h.free_eq]
      exact hlog.append fun slot hslot hfree => by simp [hfree] at hslot
  | append hnone hfree hsize =>
      rw [hfree]
      exact .nil _
  | reuse slot hfree hsize =>
      have hbefore := h.nodup_free
      have hfilter : ((operation.apply s).2.free.filter fun slot => slot ∉ s.free) = [] := by
        simp +contextual [List.filter_eq_nil_iff, hfree]
      rw [hfree] at hlog hbefore
      rw [hfilter]
      exact hlog.tail (List.nodup_cons.mp hbefore).1
  | giveBack slot h =>
      rw [h.free_eq, List.nodup_cons] at hnodup
      have hfilter : ((slot :: s.free).filter fun slot => slot ∉ s.free) = [slot] := by
        rw [List.filter_cons_of_pos (by simpa using hnodup.1)]
        simp
      rw [h.free_eq, hfilter]
      have hnewest : Recalls ([] ++ slot :: log) (slot :: s.free) := .cons (by simp) hlog
      exact hnewest

theorem recalls_givenBack (h : s.Represents slots values) (hlog : Recalls log s.free)
    (operations : List Operation) :
    Recalls (s.givenBack operations ++ log) (s.after operations).free := by
  induction operations generalizing s slots values log with
  | nil => exact hlog
  | cons operation operations ih =>
      obtain ⟨-, others, hafter⟩ := h.agrees operation
      have hrest := ih hafter (h.recalls_apply hlog operation)
      rwa [← List.append_assoc] at hrest

/-- After every history there are as many cells as there have been values at once since all were
last dropped, and each of them holds a value or is free. An insertion takes the slot that, of those
that are free, was given back last, and a new one if and only if none is free. A removal, and a
replacement of two values by one, gives back the slot of the old front and no other; the replacement
keeps the second slot as the new front. -/
theorem cells_follow_history (operations : List Operation) :
    let s := empty.after operations
    let latest? := (empty.givenBack operations).find? fun slot => slot ∈ s.free
    IsGreatest (recentLengths operations) s.cells.size ∧
    s.free.length + s.length = s.cells.size ∧
    ∀ operation : Operation,
      operation.Stores s latest? (operation.apply s).1 (operation.apply s).2 := by
  intro s latest?
  obtain ⟨slots, values, h⟩ := exists_represents_after operations
  have hlog := recalls_givenBack represents_empty (.nil []) operations
  rw [List.append_nil] at hlog
  have hlatest : latest? = s.free.head? := hlog.find?_eq
  rw [hlatest]
  exact ⟨isGreatest_size operations, h.size_eq, h.stores⟩

end Sequence

end StackQueue
