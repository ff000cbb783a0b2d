import StackQueue.Proofs.Sequence.Refinement

/-!
# Checked operations

The operations of a sequence once more, in a form that ends without result as soon as an index is
not the slot of a cell or a count goes below zero. On a sequence that represents values neither
happens.

## Implementation notes

`Sequence` passes over an index without cell and stops counts at zero, so its operations cannot
show that neither happens. Here every single access and every decrement has its own check, in the
order in which an operation makes them.
-/

namespace StackQueue

namespace Sequence.Checked

def setNext (s : Sequence) (slot : Nat) (next : Option Nat) : Option Sequence :=
  if slot < s.cells.size then some (s.setNext slot next) else none

def setPrevious (s : Sequence) (slot : Nat) (previous : Option Nat) : Option Sequence :=
  if slot < s.cells.size then some (s.setPrevious slot previous) else none

def setValue (s : Sequence) (slot : Nat) (value : Int32) : Option Sequence :=
  if slot < s.cells.size then some (s.setValue slot value) else none

def join (s : Sequence) (before after : Option Nat) : Option Sequence := do
  let s ← match before with
    | some slot => setNext s slot after
    | none => some { s with front := after }
  match after with
  | some slot => setPrevious s slot before
  | none => some { s with back := before }

/-- The slot on top of the free slots must have a cell to overwrite. -/
def allocate (s : Sequence) (value : Int32) : Option (Nat × Sequence) :=
  match s.free with
  | slot :: _ => if slot < s.cells.size then some (s.allocate value) else none
  | [] => some (s.allocate value)

/-- There must be a value to count off. -/
def release (s : Sequence) (slot : Nat) : Option Sequence :=
  if 0 < s.length then some (s.release slot) else none

def pushFront (s : Sequence) (value : Int32) : Option Sequence := do
  let oldFront := s.front
  let (slot, s) ← allocate s value
  let s ← join s (some slot) oldFront
  join s none (some slot)

def pushBack (s : Sequence) (value : Int32) : Option Sequence := do
  let oldBack := s.back
  let (slot, s) ← allocate s value
  let s ← join s oldBack (some slot)
  join s (some slot) none

def frontValue (s : Sequence) : Option (Option Int32) :=
  match s.front with
  | none => some none
  | some slot => do
      let cell ← s.cells[slot]?
      some (some cell.value)

/-- The first two slots with their cells, if there are two. -/
def frontCells (s : Sequence) : Option (Option ((Nat × Cell) × (Nat × Cell))) :=
  match s.front with
  | none => some none
  | some first => do
      let cell ← s.cells[first]?
      match cell.next with
      | none => some none
      | some second => do
          let next ← s.cells[second]?
          some (some ((first, cell), (second, next)))

def topTwo (s : Sequence) : Option (Option (Int32 × Int32)) := do
  let cells ← frontCells s
  some (cells.map fun (first, second) => (first.2.value, second.2.value))

def popFront (s : Sequence) : Option (Option Int32 × Sequence) :=
  match s.front with
  | none => some (none, s)
  | some slot => do
      let cell ← s.cells[slot]?
      let s ← join s none cell.next
      let s ← release s slot
      some (some cell.value, s)

def swapFront (s : Sequence) : Option (Bool × Sequence) := do
  match ← frontCells s with
  | none => some (false, s)
  | some ((first, _), (second, cell)) => do
      let s ← join s none (some second)
      let s ← join s (some second) (some first)
      let s ← join s (some first) cell.next
      some (true, s)

def collapseFront (s : Sequence) (value : Int32) : Option (Bool × Sequence) := do
  match ← frontCells s with
  | none => some (false, s)
  | some ((first, _), (second, _)) => do
      let s ← setValue s second value
      let s ← join s none (some second)
      let s ← release s first
      some (true, s)

def rotateLeft (s : Sequence) : Option Sequence :=
  match s.front, s.back with
  | some first, some last => do
      let cell ← s.cells[first]?
      match cell.next with
      | none => some s
      | some second => do
          let s ← join s none (some second)
          let s ← join s (some last) (some first)
          join s (some first) none
  | _, _ => some s

def rotateRight (s : Sequence) : Option Sequence :=
  match s.front, s.back with
  | some first, some last => do
      let cell ← s.cells[last]?
      match cell.previous with
      | none => some s
      | some penultimate => do
          let s ← join s (some penultimate) none
          let s ← join s (some last) (some first)
          join s none (some last)
  | _, _ => some s

/-- A cursor that answers a value must have counted on it. -/
def next (s : Sequence) (cursor : Cursor) : Option (Option Int32 × Cursor) :=
  match cursor.slot with
  | none => some (none, cursor)
  | some slot => do
      let cell ← s.cells[slot]?
      if 0 < cursor.remaining then
        some (some cell.value, ⟨cell.next, cursor.remaining - 1⟩)
      else
        none

def take (s : Sequence) (cursor : Cursor) : Nat → Option (List (Option Int32) × Cursor)
  | 0 => some ([], cursor)
  | count + 1 => do
      let (value?, cursor) ← next s cursor
      let (values, cursor) ← take s cursor count
      some (value? :: values, cursor)

end Sequence.Checked

namespace Operation

/-- Carry out one operation with every access and every decrement checked. -/
def checked (s : Sequence) : Operation → Option (Reply × Sequence)
  | push .stack value => (Sequence.Checked.pushFront s value).map fun s => (.possible true, s)
  | push .queue value => (Sequence.Checked.pushBack s value).map fun s => (.possible true, s)
  | pushFront value => (Sequence.Checked.pushFront s value).map fun s => (.possible true, s)
  | pushBack value => (Sequence.Checked.pushBack s value).map fun s => (.possible true, s)
  | popFront => (Sequence.Checked.popFront s).map fun (value?, s) => (.value value?, s)
  | frontValue => (Sequence.Checked.frontValue s).map fun value? => (.value value?, s)
  | topTwo => (Sequence.Checked.topTwo s).map fun values? => (.pair values?, s)
  | swapFront => (Sequence.Checked.swapFront s).map fun (answer, s) => (.possible answer, s)
  | collapseFront value =>
      (Sequence.Checked.collapseFront s value).map fun (answer, s) => (.possible answer, s)
  | rotateLeft => (Sequence.Checked.rotateLeft s).map fun s => (.done, s)
  | rotateRight => (Sequence.Checked.rotateRight s).map fun s => (.done, s)
  | releaseAll =>
      let (number, s) := s.releaseAll
      some (.count number, s)
  | iterate count =>
      (Sequence.Checked.take s s.cursor count).map fun (values, cursor) =>
        (.met s.cursor.remaining values cursor.remaining, s)

end Operation

namespace Sequence

variable {s : Sequence} {before after place : Option Nat} {slot : Nat} {slots : List Nat}
variable {values : List Int32}

namespace Checked

theorem join_eq_some (hbefore : s.HasPlace before) (hafter : s.HasPlace after) :
    join s before after = some (s.join before after) := by
  cases before with
  | none =>
      cases after with
      | none => rfl
      | some slot =>
          have hslot : slot < s.cells.size := hasPlace_some.mp hafter
          simp [join, Sequence.join, setPrevious, hslot]
  | some slot =>
      have hslot : slot < s.cells.size := hasPlace_some.mp hbefore
      cases after with
      | none => simp [join, Sequence.join, setNext, hslot]
      | some other =>
          have hother : other < (s.setNext slot (some other)).cells.size := by
            simpa [Sequence.setNext] using hafter
          simp [join, Sequence.join, setNext, setPrevious, hslot, hother]

theorem allocate_eq_some (hfree : ∀ slot ∈ s.free, slot < s.cells.size) (value : Int32) :
    allocate s value = some (s.allocate value) := by
  cases h : s.free with
  | nil => simp only [allocate, h]
  | cons slot free => simp only [allocate, h, if_pos (hfree slot (by simp [h]))]

/-- A cursor on a walk never stops: while there are slots to come, there is a count for them. -/
theorem take_eq_some (walk : Walk s.follower place slots) (count : Nat) :
    take s ⟨place, slots.length⟩ count = some (Cursor.take ⟨place, slots.length⟩ s count) := by
  induction count generalizing place slots with
  | zero => rfl
  | succ count ih =>
      cases walk with
      | stop =>
          have hrest := ih .stop
          rw [List.length_nil] at hrest
          simp [take, Cursor.take, next, Cursor.next, hrest]
      | @move slot place slots h tail =>
          obtain ⟨cell, hcell, hnext⟩ := Option.map_eq_some_iff.mp h
          have hrest := ih tail
          rw [← hnext] at hrest
          simp [take, Cursor.take, next, Cursor.next, hcell, hrest]

end Checked

namespace Represents

variable {x y : Int32} {rest : List Nat}

theorem checked_pushFront (h : s.Represents slots values) (value : Int32) :
    Checked.pushFront s value = some (s.pushFront value) := by
  have hslot := hasPlace_some.mpr (h.fst_allocate_lt value)
  have hfront : (s.allocate value).2.HasPlace s.front := by
    rw [h.ring.front_eq]
    exact (h.ring_allocate value).hasPlace_head?
  simp only [Checked.pushFront, Checked.allocate_eq_some (fun _ => h.lt_of_mem_free),
    Option.bind_eq_bind, Option.bind_some, Checked.join_eq_some hslot hfront]
  exact Checked.join_eq_some (hasPlace_none _) (hasPlace_join.mpr hslot)

theorem checked_pushBack (h : s.Represents slots values) (value : Int32) :
    Checked.pushBack s value = some (s.pushBack value) := by
  have hslot := hasPlace_some.mpr (h.fst_allocate_lt value)
  have hback : (s.allocate value).2.HasPlace s.back := by
    rw [h.ring.back_eq]
    exact (h.ring_allocate value).hasPlace_getLast?
  simp only [Checked.pushBack, Checked.allocate_eq_some (fun _ => h.lt_of_mem_free),
    Option.bind_eq_bind, Option.bind_some, Checked.join_eq_some hback hslot]
  exact Checked.join_eq_some (hasPlace_join.mpr hslot) (hasPlace_none _)

theorem checked_frontCells (h : s.Represents slots values) :
    Checked.frontCells s = some s.frontCells? := by
  rcases h.shapes with ⟨rfl, rfl⟩ | ⟨slot, x, rfl, rfl⟩ |
    ⟨first, second, rest, x, y, others, rfl, rfl⟩
  · simp [Checked.frontCells, h.ring.front_eq, h.frontCells?_nil]
  · simp [Checked.frontCells, h.ring.front_eq, h.getElem?_front, h.frontCells?_singleton]
  · simp [Checked.frontCells, h.ring.front_eq, h.getElem?_front, h.getElem?_second,
      h.frontCells?_eq_some]

theorem checked_frontValue (h : s.Represents slots values) :
    Checked.frontValue s = some s.frontValue? := by
  rw [h.frontValue?_eq]
  cases values with
  | nil =>
      obtain rfl := h.slots_eq_nil
      simp [Checked.frontValue, h.ring.front_eq]
  | cons x values =>
      obtain ⟨slot, rest, rfl⟩ := h.exists_cons
      simp [Checked.frontValue, h.ring.front_eq, h.getElem?_front]

theorem checked_topTwo (h : s.Represents slots values) :
    Checked.topTwo s = some s.topTwo? := by
  rw [Checked.topTwo, h.checked_frontCells]
  rfl

theorem checked_popFront (h : s.Represents slots values) :
    Checked.popFront s = some s.popFront := by
  cases values with
  | nil =>
      rw [h.popFront_nil]
      obtain rfl := h.slots_eq_nil
      simp [Checked.popFront, h.ring.front_eq]
  | cons x values =>
      obtain ⟨slot, rest, rfl⟩ := h.exists_cons
      have hnext : s.HasPlace rest.head? := h.ring.adjacent_head?.hasPlace_right
      have hlength : 0 < s.length := by simp [h.length_eq]
      simp [Checked.popFront, h.ring.front_eq, h.getElem?_front, Sequence.popFront,
        h.frontCell?_eq_some, Checked.join_eq_some (hasPlace_none s) hnext, Checked.release,
        hlength]

theorem checked_swapFront (h : s.Represents slots values) :
    Checked.swapFront s = some s.swapFront := by
  unfold Checked.swapFront Sequence.swapFront
  rw [h.checked_frontCells]
  rcases h.shapes with ⟨rfl, rfl⟩ | ⟨slot, x, rfl, rfl⟩ |
    ⟨first, second, rest, x, y, others, rfl, rfl⟩
  · simp [h.frontCells?_nil]
  · simp [h.frontCells?_singleton]
  · have hfirst : s.HasPlace (some first) := h.ring.hasPlace_head?
    have hsecond : s.HasPlace (some second) := h.ring.adjacent_head?.hasPlace_right
    have hthird : s.HasPlace rest.head? := h.ring.adjacent_second.hasPlace_right
    simp [h.frontCells?_eq_some, Checked.join_eq_some, hasPlace_join, hfirst, hsecond, hthird,
      -hasPlace_some]

theorem checked_collapseFront (h : s.Represents slots values) (value : Int32) :
    Checked.collapseFront s value = some (s.collapseFront value) := by
  unfold Checked.collapseFront Sequence.collapseFront
  rw [h.checked_frontCells]
  rcases h.shapes with ⟨rfl, rfl⟩ | ⟨slot, x, rfl, rfl⟩ |
    ⟨first, second, rest, x, y, others, rfl, rfl⟩
  · simp [h.frontCells?_nil]
  · simp [h.frontCells?_singleton]
  · have hsecond : second < s.cells.size := hasPlace_some.mp h.ring.adjacent_head?.hasPlace_right
    have hplace : (s.setValue second value).HasPlace (some second) := by
      simpa [Sequence.setValue] using hsecond
    have hlength : 0 < (s.setValue second value).length := by
      simp [Sequence.setValue, h.length_eq]
    simp [h.frontCells?_eq_some, Checked.setValue, hsecond,
      Checked.join_eq_some (hasPlace_none _) hplace, Checked.release, hlength]

theorem checked_rotateLeft (h : s.Represents slots values) :
    Checked.rotateLeft s = some s.rotateLeft := by
  rcases h.shapes with ⟨rfl, rfl⟩ | ⟨slot, x, rfl, rfl⟩ |
    ⟨first, second, rest, x, y, others, rfl, rfl⟩
  · simp [Checked.rotateLeft, h.rotateLeft_nil, h.ring.front_eq]
  · simp [Checked.rotateLeft, h.rotateLeft_singleton, h.ring.front_eq, h.ring.back_eq,
      h.getElem?_front]
  · obtain ⟨last, hlast⟩ : ∃ last, (second :: rest).getLast? = some last :=
      ⟨_, List.getLast?_eq_some_getLast (List.cons_ne_nil second rest)⟩
    have hback : s.back = some last := by rw [h.ring.back_eq, List.getLast?_cons_cons, hlast]
    have hfirst : s.HasPlace (some first) := h.ring.hasPlace_head?
    have hsecond : s.HasPlace (some second) := h.ring.adjacent_head?.hasPlace_right
    have hlast : s.HasPlace (some last) := by
      rw [← hback, h.ring.back_eq]
      exact h.ring.hasPlace_getLast?
    simp [Checked.rotateLeft, Sequence.rotateLeft, h.frontCell?_eq_some, h.ring.front_eq, hback,
      h.getElem?_front, Checked.join_eq_some, hasPlace_join, hfirst, hsecond, hlast,
      -hasPlace_some]

theorem checked_rotateRight (h : s.Represents slots values) :
    Checked.rotateRight s = some s.rotateRight := by
  rcases h.eq_nil_or_concat with ⟨rfl, rfl⟩ | ⟨init, last, others, x, rfl, rfl⟩
  · simp [Checked.rotateRight, h.rotateRight_nil, h.ring.front_eq]
  · obtain ⟨first, hfront⟩ : ∃ first, s.front = some first := by
      rw [h.ring.front_eq]
      exact ⟨_, List.head?_eq_some_head (by simp)⟩
    have hfirst : s.HasPlace (some first) := by
      rw [← hfront, h.ring.front_eq]
      exact h.ring.hasPlace_head?
    have hlast : s.HasPlace (some last) := h.ring.adjacent_getLast?.hasPlace_right
    have hback : s.back = some last := by rw [h.ring.back_eq, List.getLast?_concat]
    have hprevious : s.HasPlace init.getLast? := h.ring.adjacent_getLast?.hasPlace_left
    cases hpenultimate : init.getLast? with
    | none =>
        simp [Checked.rotateRight, Sequence.rotateRight, hfront, hback, h.getElem?_back,
          h.backCell?_eq_some, hpenultimate]
    | some penultimate =>
        rw [hpenultimate] at hprevious
        simp [Checked.rotateRight, Sequence.rotateRight, hfront, hback, h.getElem?_back,
          h.backCell?_eq_some, hpenultimate, Checked.join_eq_some, hasPlace_join, hfirst, hlast,
          hprevious, -hasPlace_some]

theorem checked_take (h : s.Represents slots values) (count : Nat) :
    Checked.take s s.cursor count = some (s.cursor.take s count) := by
  rw [cursor, h.length_eq]
  exact Checked.take_eq_some h.ring.walk_follower count

/-- Where a sequence represents values, no operation uses an index without cell and no count goes
below zero. -/
theorem checked_eq_some (h : s.Represents slots values) (operation : Operation) :
    operation.checked s = some (operation.apply s) := by
  cases operation with
  | push mode value =>
      cases mode with
      | stack => simp [Operation.checked, h.checked_pushFront, Operation.apply]
      | queue => simp [Operation.checked, h.checked_pushBack, Operation.apply]
  | pushFront value => simp [Operation.checked, h.checked_pushFront, Operation.apply]
  | pushBack value => simp [Operation.checked, h.checked_pushBack, Operation.apply]
  | popFront => simp [Operation.checked, h.checked_popFront, Operation.apply]
  | frontValue => simp [Operation.checked, h.checked_frontValue, Operation.apply]
  | topTwo => simp [Operation.checked, h.checked_topTwo, Operation.apply]
  | swapFront => simp [Operation.checked, h.checked_swapFront, Operation.apply]
  | collapseFront value => simp [Operation.checked, h.checked_collapseFront, Operation.apply]
  | rotateLeft => simp [Operation.checked, h.checked_rotateLeft, Operation.apply]
  | rotateRight => simp [Operation.checked, h.checked_rotateRight, Operation.apply]
  | releaseAll => rfl
  | iterate count => simp [Operation.checked, h.checked_take, Operation.apply]

end Represents

end Sequence

end StackQueue
