import StackQueue.Sequence.Basic

/-!
# The links of a sequence

Seen from outside, a sequence is a ring of slots closed by one extra place: the place `none` is
followed by the front and led by the back. In this view the front and the back are links like all
others, and `Sequence.join` changes what follows one place and what leads another. A sequence is
determined by its links, its values, its free slots and its length.

## Implementation notes

A slot without cell has no follower and no leader, so no statement asks that a slot be in use.
-/

namespace StackQueue.Sequence

/-- The place that follows a place. -/
def follower (s : Sequence) : Option Nat → Option (Option Nat)
  | none => some s.front
  | some slot => s.cells[slot]?.map Cell.next

/-- The place in front of a place. -/
def leader (s : Sequence) : Option Nat → Option (Option Nat)
  | none => some s.back
  | some slot => s.cells[slot]?.map Cell.previous

/-- The value kept at a slot. -/
def valueAt? (s : Sequence) (slot : Nat) : Option Int32 :=
  s.cells[slot]?.map Cell.value

/-- Joining makes `after` follow `before` and changes no other follower. -/
theorem follower_join (s : Sequence) (before after place : Option Nat) :
    (s.join before after).follower place =
      if place = before then (s.follower place).map fun _ => after else s.follower place := by
  cases before <;> cases after <;> cases place <;>
    simp only [join, setNext, setPrevious, follower, Array.getElem?_modify, Option.some.injEq,
      reduceCtorEq, if_false, if_true, Option.map_some] <;>
    grind

/-- Joining makes `before` lead `after` and changes no other leader. -/
theorem leader_join (s : Sequence) (before after place : Option Nat) :
    (s.join before after).leader place =
      if place = after then (s.leader place).map fun _ => before else s.leader place := by
  cases before <;> cases after <;> cases place <;>
    simp only [join, setNext, setPrevious, leader, Array.getElem?_modify, Option.some.injEq,
      reduceCtorEq, if_false, if_true, Option.map_some] <;>
    grind

/-- Joining keeps every value. -/
theorem valueAt?_join (s : Sequence) (before after : Option Nat) (slot : Nat) :
    (s.join before after).valueAt? slot = s.valueAt? slot := by
  cases before <;> cases after <;>
    simp only [join, setNext, setPrevious, valueAt?, Array.getElem?_modify] <;> grind

/-- Joining keeps the slots. -/
@[simp] theorem size_cells_join (s : Sequence) (before after : Option Nat) :
    (s.join before after).cells.size = s.cells.size := by
  cases before <;> cases after <;> simp [join, setNext, setPrevious]

/-- Joining keeps the free slots. -/
@[simp] theorem free_join (s : Sequence) (before after : Option Nat) :
    (s.join before after).free = s.free := by
  cases before <;> cases after <;> rfl

/-- Joining keeps the length. -/
@[simp] theorem length_join (s : Sequence) (before after : Option Nat) :
    (s.join before after).length = s.length := by
  cases before <;> cases after <;> rfl

/-- Sequences with the same links, values, free slots and length are equal. -/
theorem eq_of_links {s t : Sequence} (followers : ∀ place, s.follower place = t.follower place)
    (leaders : ∀ place, s.leader place = t.leader place)
    (values : ∀ slot, s.valueAt? slot = t.valueAt? slot) (free : s.free = t.free)
    (length : s.length = t.length) : s = t := by
  obtain ⟨cells, free, front, back, length⟩ := s
  obtain ⟨cells', free', front', back', length'⟩ := t
  have hfront : front = front' := Option.some.inj (followers none)
  have hback : back = back' := Option.some.inj (leaders none)
  have hcells : cells = cells' := by
    apply Array.ext_getElem?
    intro slot
    have hnext := followers (some slot)
    have hprevious := leaders (some slot)
    have hvalue := values slot
    simp only [follower, leader, valueAt?] at hnext hprevious hvalue
    cases hs : cells[slot]? with
    | none =>
        cases ht : cells'[slot]? with
        | none => rfl
        | some cell => simp [hs, ht] at hvalue
    | some cell =>
        cases ht : cells'[slot]? with
        | none => simp [hs, ht] at hvalue
        | some cell' =>
            simp only [hs, ht, Option.map_some, Option.some.injEq] at hnext hprevious hvalue
            cases cell
            cases cell'
            simp_all
  simp_all

end StackQueue.Sequence
