import Mathlib.Data.List.Perm.Basic
import StackQueue.Proofs.Sequence.Ring

/-!
# What a sequence represents

A sequence represents a list of values if its links form a ring through the slots of these values
and every other slot is free. Each operation takes a represented list to the list that it should,
and the slots in use to the slots that it leaves in use.
-/

namespace StackQueue.Sequence

variable {s : Sequence} {slot : Nat} {slots rest : List Nat} {x y : Int32} {values : List Int32}

theorem allocate_of_free_eq_cons {free : List Nat} (h : s.free = slot :: free) (value : Int32) :
    s.allocate value = (slot, { s with
      cells := s.cells.modify slot fun _ => ⟨value, none, none⟩
      free
      length := s.length + 1 }) := by
  simp only [allocate, h]

theorem allocate_of_free_eq_nil (h : s.free = []) (value : Int32) :
    s.allocate value = (s.cells.size, { s with
      cells := s.cells.push ⟨value, none, none⟩
      length := s.length + 1 }) := by
  simp only [allocate, h]

@[simp] theorem length_allocate (s : Sequence) (value : Int32) :
    (s.allocate value).2.length = s.length + 1 := by
  cases h : s.free with
  | nil => rw [allocate_of_free_eq_nil h]
  | cons slot free => rw [allocate_of_free_eq_cons h]

theorem length_push (s : Sequence) (mode : Mode) (value : Int32) :
    (s.push mode value).length = s.length + 1 := by
  cases mode with
  | stack => rw [push_stack, pushFront_eq, length_join, length_join, length_allocate]
  | queue => rw [push_queue, pushBack_eq, length_join, length_join, length_allocate]

/-- A new cell holds its value and no links yet; the other cells stay as they are. -/
theorem getElem?_cells_allocate (hfree : ∀ slot ∈ s.free, slot < s.cells.size) (value : Int32)
    (slot : Nat) :
    (s.allocate value).2.cells[slot]? =
      if slot = (s.allocate value).1 then some ⟨value, none, none⟩ else s.cells[slot]? := by
  cases h : s.free with
  | nil =>
      rw [allocate_of_free_eq_nil h]
      exact Array.getElem?_push
  | cons first others =>
      have hfirst : first < s.cells.size := hfree first (by simp [h])
      rw [allocate_of_free_eq_cons h]
      simp only [Array.getElem?_modify]
      by_cases heq : first = slot
      · subst heq
        simp [hfirst]
      · rw [if_neg heq, if_neg (Ne.symm heq)]

@[simp] theorem values_join (s : Sequence) (before after : Option Nat) :
    (s.join before after).valueAt? = s.valueAt? := by
  ext1 slot
  exact valueAt?_join s before after slot

@[simp] theorem values_release (s : Sequence) (slot : Nat) :
    (s.release slot).valueAt? = s.valueAt? := rfl

theorem valueAt?_setValue_self (value : Int32) (h : s.valueAt? slot = some x) :
    (s.setValue slot value).valueAt? slot = some value := by
  obtain ⟨cell, hcell, -⟩ := Option.map_eq_some_iff.mp h
  simp [valueAt?, setValue, Array.getElem?_modify, hcell]

theorem valueAt?_setValue_of_ne (s : Sequence) {slot other : Nat} (value : Int32)
    (h : other ≠ slot) : (s.setValue slot value).valueAt? other = s.valueAt? other := by
  simp only [valueAt?, setValue, Array.getElem?_modify, if_neg h.symm]

/-- A cell is known by its value and its links. -/
theorem getElem?_cells_of_links {previous next : Option Nat} (hvalue : s.valueAt? slot = some x)
    (hleader : s.leader (some slot) = some previous)
    (hfollower : s.follower (some slot) = some next) :
    s.cells[slot]? = some ⟨x, previous, next⟩ := by
  obtain ⟨cell, hcell, rfl⟩ := Option.map_eq_some_iff.mp hvalue
  simp only [leader, follower, hcell, Option.map_some, Option.some.injEq] at hleader hfollower
  rw [hcell, ← hleader, ← hfollower]

/-- The slots in use, front to back, and the values that they hold. -/
structure Represents (s : Sequence) (slots : List Nat) (values : List Int32) : Prop where
  ring : s.Ring slots
  /-- Every slot is in use or free, and once. -/
  partition : (slots ++ s.free).Perm (List.range s.cells.size)
  length_eq : s.length = slots.length
  values_eq : slots.map s.valueAt? = values.map some

theorem represents_empty : empty.Represents [] [] := by
  refine ⟨⟨⟨rfl, rfl⟩, List.isChain_nil, ⟨rfl, rfl⟩⟩, ?_, rfl, rfl⟩
  simp [empty]

namespace Represents

theorem nodup_append (h : s.Represents slots values) : (slots ++ s.free).Nodup :=
  h.partition.nodup_iff.mpr List.nodup_range

theorem nodup (h : s.Represents slots values) : slots.Nodup :=
  (List.nodup_append'.mp h.nodup_append).1

theorem lt_of_mem_free (h : s.Represents slots values) (hslot : slot ∈ s.free) :
    slot < s.cells.size :=
  List.mem_range.mp (h.partition.subset (List.mem_append_right slots hslot))

theorem length_values (h : s.Represents slots values) : values.length = s.length := by
  have hlength := congrArg List.length h.values_eq
  simp only [List.length_map] at hlength
  rw [h.length_eq, hlength]

/-- No value is represented by no slot. -/
theorem slots_eq_nil (h : s.Represents slots []) : slots = [] := by
  simpa using h.values_eq

/-- A first value has a first slot. -/
theorem exists_cons (h : s.Represents slots (x :: values)) :
    ∃ slot rest, slots = slot :: rest := by
  have hvalues := h.values_eq
  cases slots with
  | nil => simp at hvalues
  | cons slot rest => exact ⟨slot, rest, rfl⟩

/-- A last value has a last slot. -/
theorem exists_concat (h : s.Represents slots (values ++ [x])) :
    ∃ init slot, slots = init ++ [slot] := by
  have hvalues := h.values_eq
  rcases List.eq_nil_or_concat slots with rfl | ⟨init, slot, rfl⟩
  · simp at hvalues
  · exact ⟨init, slot, List.concat_eq_append⟩

/-- A sequence has no value, a single one, or a first and a second. -/
theorem shapes (h : s.Represents slots values) :
    (slots = [] ∧ values = []) ∨ (∃ slot x, slots = [slot] ∧ values = [x]) ∨
      ∃ first second rest x y others,
        slots = first :: second :: rest ∧ values = x :: y :: others := by
  match values, h with
  | [], h => exact .inl ⟨h.slots_eq_nil, rfl⟩
  | x :: values, h =>
      obtain ⟨first, rest, rfl⟩ := h.exists_cons
      have hvalues := (List.cons.inj h.values_eq).2
      match rest, values with
      | [], [] => exact .inr (.inl ⟨first, x, rfl, rfl⟩)
      | second :: rest, y :: others => exact .inr (.inr ⟨_, _, _, _, _, _, rfl, rfl⟩)
      | [], _ :: _ => simp at hvalues
      | _ :: _, [] => simp at hvalues

/-- A sequence has no value, or a last one with a last slot. -/
theorem eq_nil_or_concat (h : s.Represents slots values) :
    (slots = [] ∧ values = []) ∨
      ∃ init slot others x, slots = init ++ [slot] ∧ values = others ++ [x] := by
  rcases List.eq_nil_or_concat values with rfl | ⟨others, x, hconcat⟩
  · exact .inl ⟨h.slots_eq_nil, rfl⟩
  · rw [List.concat_eq_append] at hconcat
    subst hconcat
    obtain ⟨init, slot, rfl⟩ := h.exists_concat
    exact .inr ⟨init, slot, others, x, rfl, rfl⟩

/-! ### Insertion -/

/-- After an allocation the new slot belongs to the slots that are not free. -/
theorem partition_allocate (h : s.Represents slots values) (value : Int32) :
    ((s.allocate value).1 :: slots ++ (s.allocate value).2.free).Perm
      (List.range (s.allocate value).2.cells.size) := by
  have hpartition := h.partition
  cases hfree : s.free with
  | nil =>
      rw [hfree, List.append_nil] at hpartition
      simp only [allocate_of_free_eq_nil hfree, hfree, List.append_nil, Array.size_push,
        List.range_succ]
      exact (hpartition.cons _).trans (List.perm_append_singleton _ _).symm
  | cons first others =>
      rw [hfree] at hpartition
      simp only [allocate_of_free_eq_cons hfree, Array.size_modify]
      exact List.perm_middle.symm.trans hpartition

theorem fst_allocate_lt (h : s.Represents slots values) (value : Int32) :
    (s.allocate value).1 < (s.allocate value).2.cells.size :=
  List.mem_range.mp ((h.partition_allocate value).subset (by simp))

theorem outside_allocate (h : s.Represents slots values) (value : Int32) :
    Outside slots (some (s.allocate value).1) := by
  have hnodup := (h.partition_allocate value).nodup_iff.mpr List.nodup_range
  rw [List.cons_append, List.nodup_cons] at hnodup
  exact outside_some.mpr fun hmem => hnodup.1 (List.mem_append_left _ hmem)

theorem ring_allocate (h : s.Represents slots values) (value : Int32) :
    (s.allocate value).2.Ring slots := by
  apply h.ring.congr
  intro place hplace
  cases place with
  | none =>
      cases hfree : s.free with
      | nil => simp only [allocate_of_free_eq_nil hfree, follower, leader, and_self]
      | cons first others => simp only [allocate_of_free_eq_cons hfree, follower, leader, and_self]
  | some slot =>
      have hne : slot ≠ (s.allocate value).1 := by
        rintro rfl
        exact outside_some.mp (h.outside_allocate value) (hplace _ rfl)
      simp only [follower, leader, getElem?_cells_allocate fun _ => h.lt_of_mem_free, if_neg hne,
        and_self]

theorem valueAt?_fst_allocate (h : s.Represents slots values) (value : Int32) :
    (s.allocate value).2.valueAt? (s.allocate value).1 = some value := by
  simp [valueAt?, getElem?_cells_allocate fun _ => h.lt_of_mem_free]

theorem map_valueAt?_allocate (h : s.Represents slots values) (value : Int32) :
    slots.map (s.allocate value).2.valueAt? = values.map some := by
  rw [← h.values_eq]
  apply List.map_congr_left
  intro slot hslot
  have hne : slot ≠ (s.allocate value).1 := by
    rintro rfl
    exact outside_some.mp (h.outside_allocate value) hslot
  simp only [valueAt?, getElem?_cells_allocate fun _ => h.lt_of_mem_free, if_neg hne]

theorem pushFront (h : s.Represents slots values) (value : Int32) :
    (s.pushFront value).Represents ((s.allocate value).1 :: slots) (value :: values) := by
  have heq : s.pushFront value = ((s.allocate value).2.join (some (s.allocate value).1)
      slots.head?).join none (some (s.allocate value).1) := by
    rw [← h.ring.front_eq]
    rfl
  rw [heq]
  constructor
  · exact (h.ring_allocate value).insertFront (h.fst_allocate_lt value) h.nodup
      (h.outside_allocate value)
  · simpa using h.partition_allocate value
  · simp [h.length_eq]
  · simp [h.valueAt?_fst_allocate, ← h.map_valueAt?_allocate value]

theorem pushBack (h : s.Represents slots values) (value : Int32) :
    (s.pushBack value).Represents (slots ++ [(s.allocate value).1]) (values ++ [value]) := by
  have heq : s.pushBack value = ((s.allocate value).2.join slots.getLast?
      (some (s.allocate value).1)).join (some (s.allocate value).1) none := by
    rw [← h.ring.back_eq]
    rfl
  rw [heq]
  constructor
  · exact (h.ring_allocate value).insertBack (h.fst_allocate_lt value) h.nodup
      (h.outside_allocate value)
  · have hmiddle : (slots ++ (s.allocate value).1 :: (s.allocate value).2.free).Perm _ :=
      List.perm_middle.trans (h.partition_allocate value)
    simpa using hmiddle
  · simp [h.length_eq]
  · simp [h.valueAt?_fst_allocate, ← h.map_valueAt?_allocate value]

/-! ### Cells at the ends -/

theorem getElem?_front (h : s.Represents (slot :: rest) (x :: values)) :
    s.cells[slot]? = some ⟨x, none, rest.head?⟩ :=
  getElem?_cells_of_links (List.cons.inj h.values_eq).1 h.ring.first.2 h.ring.adjacent_head?.1

theorem getElem?_second {second : Nat}
    (h : s.Represents (slot :: second :: rest) (x :: y :: values)) :
    s.cells[second]? = some ⟨y, some slot, rest.head?⟩ := by
  have hvalues := List.cons.inj (List.cons.inj h.values_eq).2
  exact getElem?_cells_of_links hvalues.1 h.ring.adjacent_head?.2 h.ring.adjacent_second.1

theorem getElem?_back {init : List Nat} (h : s.Represents (init ++ [slot]) (values ++ [x])) :
    s.cells[slot]? = some ⟨x, init.getLast?, none⟩ := by
  have hvalue : s.valueAt? slot = some x := by
    have hvalues := h.values_eq
    simp only [List.map_append, List.map_cons, List.map_nil] at hvalues
    exact (List.cons.inj (List.append_inj_right' hvalues rfl)).1
  have hlast := h.ring.last
  rw [List.getLast?_concat] at hlast
  exact getElem?_cells_of_links hvalue h.ring.adjacent_getLast?.2 hlast.1

theorem frontCell?_eq_none (h : s.Represents [] values) : s.frontCell? = none := by
  simp [Sequence.frontCell?, h.ring.front_eq]

theorem frontCell?_eq_some (h : s.Represents (slot :: rest) (x :: values)) :
    s.frontCell? = some (slot, ⟨x, none, rest.head?⟩) := by
  simp [Sequence.frontCell?, h.ring.front_eq, h.getElem?_front]

theorem frontCells?_nil (h : s.Represents [] values) : s.frontCells? = none := by
  simp [Sequence.frontCells?, h.frontCell?_eq_none]

theorem frontCells?_singleton (h : s.Represents [slot] [x]) : s.frontCells? = none := by
  simp [Sequence.frontCells?, h.frontCell?_eq_some]

theorem frontCells?_eq_some {second : Nat} (h : s.Represents (slot :: second :: rest)
    (x :: y :: values)) :
    s.frontCells? =
      some ((slot, ⟨x, none, some second⟩), (second, ⟨y, some slot, rest.head?⟩)) := by
  simp [Sequence.frontCells?, h.frontCell?_eq_some, h.getElem?_second]

theorem backCell?_eq_some {init : List Nat} (h : s.Represents (init ++ [slot]) (values ++ [x])) :
    s.backCell? = some (slot, ⟨x, init.getLast?, none⟩) := by
  simp [Sequence.backCell?, h.ring.back_eq, h.getElem?_back]

/-! ### Removal and exchange -/

theorem popFront_nil (h : s.Represents slots []) : s.popFront = (none, s) := by
  obtain rfl := h.slots_eq_nil
  simp only [Sequence.popFront, h.frontCell?_eq_none]

theorem fst_popFront (h : s.Represents (slot :: rest) (x :: values)) :
    s.popFront.1 = some x := by
  simp only [Sequence.popFront, h.frontCell?_eq_some]

theorem popFront (h : s.Represents (slot :: rest) (x :: values)) :
    s.popFront.2.Represents rest values := by
  simp only [Sequence.popFront, h.frontCell?_eq_some]
  constructor
  · exact (h.ring.removeFront h.nodup).release slot
  · have hpartition : (rest ++ slot :: s.free).Perm (List.range s.cells.size) :=
      List.perm_middle.trans h.partition
    simpa [release] using hpartition
  · simp [release, h.length_eq]
  · simpa using (List.cons.inj h.values_eq).2

theorem swapFront {second : Nat} (h : s.Represents (slot :: second :: rest) (x :: y :: values)) :
    s.swapFront.2.Represents (second :: slot :: rest) (y :: x :: values) := by
  simp only [Sequence.swapFront, h.frontCells?_eq_some]
  have hvalues := h.values_eq
  simp only [List.map_cons, List.cons.injEq] at hvalues
  constructor
  · exact h.ring.exchange h.nodup
  · have hpartition := ((List.Perm.swap slot second rest).append_right s.free).trans h.partition
    simpa using hpartition
  · simp [h.length_eq]
  · simp [hvalues]

theorem collapseFront {second : Nat} (h : s.Represents (slot :: second :: rest) (x :: y :: values))
    (value : Int32) : (s.collapseFront value).2.Represents (second :: rest) (value :: values) := by
  simp only [Sequence.collapseFront, h.frontCells?_eq_some]
  have hnodup := h.nodup
  have hvalues := h.values_eq
  simp only [List.map_cons, List.cons.injEq] at hvalues
  constructor
  · exact ((h.ring.setValue second value).removeFront hnodup).release slot
  · have hpartition : (second :: rest ++ slot :: s.free).Perm (List.range s.cells.size) :=
      List.perm_middle.trans h.partition
    simpa [release, Sequence.setValue] using hpartition
  · simp [release, Sequence.setValue, h.length_eq]
  · have hsecond : second ∉ rest := (List.nodup_cons.mp (List.nodup_cons.mp hnodup).2).1
    have hrest : rest.map (s.setValue second value).valueAt? = rest.map s.valueAt? := by
      apply List.map_congr_left
      intro other hother
      exact valueAt?_setValue_of_ne s value fun heq => hsecond (heq ▸ hother)
    simp [valueAt?_setValue_self value hvalues.2.1, hrest, hvalues.2.2]

/-! ### Rotation -/

theorem rotateLeft_nil (h : s.Represents [] values) : s.rotateLeft = s := by
  simp only [Sequence.rotateLeft, h.frontCell?_eq_none]

theorem rotateLeft_singleton (h : s.Represents [slot] [x]) : s.rotateLeft = s := by
  simp only [Sequence.rotateLeft, h.frontCell?_eq_some, List.head?_nil]

/-- Where there is a second slot, a rotation makes it the front and links the first behind the
last. -/
theorem rotateLeft_eq (h : s.Represents (slot :: rest) (x :: values)) (hne : rest ≠ []) :
    s.rotateLeft = ((s.join none rest.head?).join rest.getLast? (some slot)).join
      (some slot) none := by
  obtain ⟨second, others, rfl⟩ := List.exists_cons_of_ne_nil hne
  obtain ⟨last, hlast⟩ : ∃ last, (second :: others).getLast? = some last :=
    ⟨_, List.getLast?_eq_some_getLast hne⟩
  have hback : s.back = some last := by
    rw [h.ring.back_eq, List.getLast?_cons_cons, hlast]
  simp only [Sequence.rotateLeft, h.frontCell?_eq_some, List.head?_cons, hback, hlast]

theorem rotateLeft (h : s.Represents (slot :: rest) (x :: values)) :
    s.rotateLeft.Represents (rest ++ [slot]) (values ++ [x]) := by
  have hvalues := List.cons.inj h.values_eq
  by_cases hne : rest = []
  · subst hne
    obtain rfl : values = [] := by simpa using hvalues.2
    rwa [h.rotateLeft_singleton]
  · rw [h.rotateLeft_eq hne]
    constructor
    · exact h.ring.rotateLeft h.nodup hne
    · have hpartition := ((List.perm_append_singleton slot rest).append_right
        s.free).trans h.partition
      simpa using hpartition
    · simp [h.length_eq]
    · simp only [values_join, List.map_append, hvalues, List.map_cons, List.map_nil]

theorem rotateRight_nil (h : s.Represents [] values) : s.rotateRight = s := by
  simp only [Sequence.rotateRight, h.ring.front_eq, List.head?_nil]

theorem rotateRight_singleton (h : s.Represents [slot] [x]) : s.rotateRight = s := by
  have hempty : s.Represents ([] ++ [slot]) ([] ++ [x]) := h
  have hback := hempty.backCell?_eq_some
  simp only [Sequence.rotateRight, h.ring.front_eq, List.head?_cons, hback, List.getLast?_nil]

/-- Where there is a last slot but one, a rotation makes it the back and links the last in front of
the first. -/
theorem rotateRight_eq {init : List Nat} (h : s.Represents (init ++ [slot]) (values ++ [x]))
    (hne : init ≠ []) :
    s.rotateRight = ((s.join init.getLast? none).join (some slot) init.head?).join
      none (some slot) := by
  obtain ⟨penultimate, hpenultimate⟩ : ∃ penultimate, init.getLast? = some penultimate :=
    ⟨_, List.getLast?_eq_some_getLast hne⟩
  obtain ⟨first, hfirst⟩ : ∃ first, init.head? = some first :=
    ⟨_, List.head?_eq_some_head hne⟩
  have hfront : s.front = some first := by
    rw [h.ring.front_eq, List.head?_append_of_ne_nil _ hne, hfirst]
  simp only [Sequence.rotateRight, hfront, h.backCell?_eq_some, hpenultimate, hfirst]

theorem rotateRight {init : List Nat} (h : s.Represents (init ++ [slot]) (values ++ [x])) :
    s.rotateRight.Represents (slot :: init) (x :: values) := by
  have hvalues := h.values_eq
  simp only [List.map_append, List.map_cons, List.map_nil] at hvalues
  obtain ⟨hinit, hslot⟩ := List.append_inj' hvalues rfl
  by_cases hne : init = []
  · subst hne
    obtain rfl : values = [] := by simpa using hinit
    rwa [h.rotateRight_singleton]
  · rw [h.rotateRight_eq hne]
    constructor
    · exact h.ring.rotateRight h.nodup hne
    · have hpartition := ((List.perm_append_singleton slot init).symm.append_right
        s.free).trans h.partition
      simpa using hpartition
    · simp [h.length_eq]
    · simpa using ⟨(List.cons.inj hslot).1, hinit⟩

end Represents

end StackQueue.Sequence
