import StackQueue.Proofs.Sequence.Representation
import StackQueue.Sequence.Cursor

/-!
# Walks along the links

A walk starts at a place, follows one kind of link from slot to slot and ends at the extra place.
In a ring it passes the slots in order forwards and in reverse backwards, so a cursor meets the
values that the sequence represents.
-/

namespace StackQueue.Sequence

variable {s : Sequence} {place : Option Nat} {slot : Nat} {slots : List Nat} {x : Int32}
variable {values : List Int32}

/-- The links lead from a place through exactly these slots, in this order, to the extra place. -/
inductive Walk (link : Option Nat → Option (Option Nat)) : Option Nat → List Nat → Prop
  | stop : Walk link none []
  | move {slot : Nat} {place : Option Nat} {slots : List Nat} (h : link (some slot) = some place)
      (tail : Walk link place slots) : Walk link (some slot) (slot :: slots)

/-- Where a walk goes is settled by its start. -/
theorem Walk.unique {link : Option Nat → Option (Option Nat)} {others : List Nat}
    (walk : Walk link place slots) (other : Walk link place others) : slots = others := by
  induction walk generalizing others with
  | stop =>
      cases other
      rfl
  | move h tail ih =>
      cases other with
      | move h' tail' =>
          obtain rfl := Option.some.inj (h.symm.trans h')
          rw [ih tail']

theorem walk_of_isChain {link : Option Nat → Option (Option Nat)}
    (hlinks : slots.IsChain fun a b => link (some a) = some (some b))
    (hlast : ∀ slot ∈ slots.getLast?, link (some slot) = some none) :
    Walk link slots.head? slots := by
  induction slots with
  | nil => exact .stop
  | cons a rest ih =>
      cases rest with
      | nil => exact .move (hlast a rfl) .stop
      | cons b rest =>
          obtain ⟨hab, hrest⟩ := List.isChain_cons_cons.mp hlinks
          rw [List.getLast?_cons_cons] at hlast
          exact .move hab (ih hrest hlast)

theorem Ring.walk_follower (h : s.Ring slots) : Walk s.follower s.front slots := by
  rw [h.front_eq]
  apply walk_of_isChain
  · exact h.links.imp fun a b hab => hab.1
  · intro slot hslot
    rw [Option.mem_def] at hslot
    have hlast := h.last.1
    rwa [hslot] at hlast

theorem Ring.walk_leader (h : s.Ring slots) : Walk s.leader s.back slots.reverse := by
  rw [h.back_eq, ← List.head?_reverse]
  apply walk_of_isChain
  · rw [List.isChain_reverse]
    exact h.links.imp fun a b hab => hab.2
  · intro slot hslot
    rw [List.getLast?_reverse, Option.mem_def] at hslot
    have hfirst := h.first.2
    rwa [hslot] at hfirst

/-! ### Cursors -/

theorem next_of_follower (hvalue : s.valueAt? slot = some x)
    (hfollower : s.follower (some slot) = some place) (remaining : Nat) :
    Cursor.next ⟨some slot, remaining⟩ s = (some x, ⟨place, remaining - 1⟩) := by
  obtain ⟨cell, hcell, rfl⟩ := Option.map_eq_some_iff.mp hvalue
  simp only [follower, hcell, Option.map_some, Option.some.injEq] at hfollower
  simp only [Cursor.next, Option.bind_some, hcell, hfollower]

/-- The values collected along a walk are those of its slots. -/
theorem collect_of_walk (walk : Walk s.follower place slots)
    (hvalues : slots.map s.valueAt? = values.map some) {count : Nat}
    (hcount : slots.length ≤ count) (remaining : Nat) (met : Array Int32) :
    Cursor.collect s count ⟨place, remaining⟩ met = met ++ values.toArray := by
  induction walk generalizing values count remaining met with
  | stop =>
      obtain rfl : values = [] := by simpa using hvalues.symm
      cases count <;> simp [Cursor.collect, Cursor.next]
  | @move slot place slots h tail ih =>
      cases count with
      | zero => simp at hcount
      | succ count =>
          cases values with
          | nil => simp at hvalues
          | cons x values =>
              simp only [List.map_cons, List.cons.injEq] at hvalues
              rw [List.length_cons] at hcount
              rw [Cursor.collect, next_of_follower hvalues.1 h]
              simp only
              rw [ih hvalues.2 (by omega)]
              simp

/-- The answers to any number of requests: the values in order, and nothing after the last. -/
theorem take_of_walk (walk : Walk s.follower place slots)
    (hvalues : slots.map s.valueAt? = values.map some) (count : Nat) :
    Cursor.take ⟨place, values.length⟩ s count =
      ((List.range count).map fun index => values[index]?,
        ⟨(slots.drop count).head?, values.length - count⟩) := by
  induction count generalizing place slots values with
  | zero => cases walk <;> simp [Cursor.take]
  | succ count ih =>
      rw [Cursor.take, List.range_succ_eq_map, List.map_cons, List.map_map]
      cases walk with
      | stop =>
          obtain rfl : values = [] := by simpa using hvalues.symm
          have hnone : Cursor.next ⟨none, 0⟩ s = (none, ⟨none, 0⟩) := rfl
          have hrest := ih .stop hvalues
          simp only [List.length_nil] at hrest ⊢
          simp [hnone, hrest, Function.comp_def]
      | move h tail =>
          cases values with
          | nil => simp at hvalues
          | cons x values =>
              simp only [List.map_cons, List.cons.injEq] at hvalues
              rw [next_of_follower hvalues.1 h]
              simp only [List.length_cons, Nat.add_sub_cancel, ih tail hvalues.2]
              simp [Function.comp_def]

namespace Represents

theorem toList_eq (h : s.Represents slots values) : s.toList = values := by
  have hcollect := collect_of_walk h.ring.walk_follower h.values_eq h.length_eq.ge s.length #[]
  simp [toList, cursor, hcollect]

end Represents

end StackQueue.Sequence
