import StackQueue.Mode
import StackQueue.Storage

/-!
# The linked sequence of values

A sequence keeps its values in cells that are linked in both directions, so that insertion and
removal at either end, the exchange of the first two cells and both rotations touch only a few
links. A cell is named by its slot, its position in the array of cells. The slot of a removed cell
is kept on a list of free slots, and the slot freed last is the first to be used again; the array
grows only when no slot is free, and then the storage for it can be refused. An insertion that is
refused storage leaves the sequence as it was.

## Implementation notes

The structure is plain data: no field proves that the links fit together. `Sequence.join` is the
only place where links change. It makes one slot follow another and takes the two ends of the
sequence as the neighbours that are missing there, so each operation is a short list of the new
adjacencies. The cell of a free slot keeps its last contents.
-/

namespace StackQueue

/-- A value with the slots of its neighbours; an end of the sequence has no neighbour. -/
structure Cell where
  /-- The value that is kept. -/
  value : Int32
  /-- The slot in front of this one. -/
  previous : Option Nat
  /-- The slot behind this one. -/
  next : Option Nat
  deriving DecidableEq

/-- Linked cells with their two ends and the slots that can be used again. -/
structure Sequence where
  /-- The cells by slot, those of free slots included. -/
  cells : Array Cell
  /-- The free slots, the one freed last first. -/
  free : List Nat
  /-- The slot of the first value. -/
  front : Option Nat
  /-- The slot of the last value. -/
  back : Option Nat
  /-- The number of values. -/
  length : Nat
  deriving DecidableEq

namespace Sequence

/-- The sequence without values and without slots. -/
def empty : Sequence :=
  ⟨#[], [], none, none, 0⟩

/-- A sequence is empty if it has no first slot. -/
def isEmpty (s : Sequence) : Bool :=
  s.front.isNone

/-- Set the slot behind `slot`. -/
def setNext (s : Sequence) (slot : Nat) (next : Option Nat) : Sequence :=
  { s with cells := s.cells.modify slot fun cell => { cell with next } }

/-- Set the slot in front of `slot`. -/
def setPrevious (s : Sequence) (slot : Nat) (previous : Option Nat) : Sequence :=
  { s with cells := s.cells.modify slot fun cell => { cell with previous } }

/-- Set the value kept at `slot`. -/
def setValue (s : Sequence) (slot : Nat) (value : Int32) : Sequence :=
  { s with cells := s.cells.modify slot fun cell => { cell with value } }

/-- Make `after` follow `before`, in both directions. No slot before means that `after` becomes
the front, and no slot after means that `before` becomes the back. -/
def join (s : Sequence) (before after : Option Nat) : Sequence :=
  let s := match before with
    | some slot => s.setNext slot after
    | none => { s with front := after }
  match after with
  | some slot => s.setPrevious slot before
  | none => { s with back := before }

/-- Take the slot that there is for a new value: the one freed last, or a new one if none is free.
The new cell is counted but not linked yet. -/
def allocate (s : Sequence) (value : Int32) : Nat × Sequence :=
  match s.free with
  | slot :: free =>
      (slot, { s with
        cells := s.cells.modify slot fun _ => ⟨value, none, none⟩
        free
        length := s.length + 1 })
  | [] =>
      (s.cells.size, { s with
        cells := s.cells.push ⟨value, none, none⟩
        length := s.length + 1 })

/-- Give back the slot of a cell that is no longer linked. -/
def release (s : Sequence) (slot : Nat) : Sequence :=
  { s with free := slot :: s.free, length := s.length - 1 }

/-- Whether there is a slot for a new value: one is free, or storage for another is granted. -/
def hasRoom (s : Sequence) (storage : Storage) : Bool :=
  storage.grants (s.cells.size + 1) || !s.free.isEmpty

/-- Take a slot for a new value, if there is one. Storage is asked for before anything changes. -/
def allocate? (s : Sequence) (value : Int32) (storage : Storage) : Option Nat × Sequence :=
  if s.hasRoom storage then
    let (slot, s) := s.allocate value
    (some slot, s)
  else
    (none, s)

/-- Insert a value in front of all others, if there is a slot for it, and answer whether there
is. -/
def tryPushFront (s : Sequence) (value : Int32) (storage : Storage) : Bool × Sequence :=
  let oldFront := s.front
  match s.allocate? value storage with
  | (none, s) => (false, s)
  | (some slot, s) => (true, (s.join (some slot) oldFront).join none (some slot))

/-- Insert a value behind all others, if there is a slot for it, and answer whether there is. -/
def tryPushBack (s : Sequence) (value : Int32) (storage : Storage) : Bool × Sequence :=
  let oldBack := s.back
  match s.allocate? value storage with
  | (none, s) => (false, s)
  | (some slot, s) => (true, (s.join oldBack (some slot)).join (some slot) none)

/-- Insert a value at the end that the mode names, if there is a slot for it, and answer whether
there is. -/
def tryPush (s : Sequence) (mode : Mode) (value : Int32) (storage : Storage) : Bool × Sequence :=
  match mode with
  | .stack => s.tryPushFront value storage
  | .queue => s.tryPushBack value storage

/-- Insert a value in front of all others in plentiful storage. -/
def pushFront (s : Sequence) (value : Int32) : Sequence :=
  (s.tryPushFront value .plentiful).2

/-- Insert a value behind all others in plentiful storage. -/
def pushBack (s : Sequence) (value : Int32) : Sequence :=
  (s.tryPushBack value .plentiful).2

/-- Insert a value at the end that the mode names in plentiful storage. -/
def push (s : Sequence) (mode : Mode) (value : Int32) : Sequence :=
  (s.tryPush mode value .plentiful).2

/-- The first slot with its cell. -/
def frontCell? (s : Sequence) : Option (Nat × Cell) :=
  s.front.bind fun slot => s.cells[slot]?.map fun cell => (slot, cell)

/-- The first two slots with their cells. -/
def frontCells? (s : Sequence) : Option ((Nat × Cell) × (Nat × Cell)) :=
  s.frontCell?.bind fun first =>
    first.2.next.bind fun slot => s.cells[slot]?.map fun cell => (first, (slot, cell))

/-- The last slot with its cell. -/
def backCell? (s : Sequence) : Option (Nat × Cell) :=
  s.back.bind fun slot => s.cells[slot]?.map fun cell => (slot, cell)

/-- The first value. -/
def frontValue? (s : Sequence) : Option Int32 :=
  s.frontCell?.map fun first => first.2.value

/-- The first two values. -/
def topTwo? (s : Sequence) : Option (Int32 × Int32) :=
  s.frontCells?.map fun (first, second) => (first.2.value, second.2.value)

/-- Remove the first value and answer it. -/
def popFront (s : Sequence) : Option Int32 × Sequence :=
  match s.frontCell? with
  | none => (none, s)
  | some (slot, cell) => (some cell.value, (s.join none cell.next).release slot)

/-- Exchange the first two cells, if there are two, and answer whether there are. -/
def swapFront (s : Sequence) : Bool × Sequence :=
  match s.frontCells? with
  | none => (false, s)
  | some ((first, _), (second, cell)) =>
      (true, ((s.join none (some second)).join (some second) (some first)).join
        (some first) cell.next)

/-- Replace the first two values by one, which stays in the second slot, if there are two, and
answer whether there are. -/
def collapseFront (s : Sequence) (value : Int32) : Bool × Sequence :=
  match s.frontCells? with
  | none => (false, s)
  | some ((first, _), (second, _)) =>
      (true, ((s.setValue second value).join none (some second)).release first)

/-- Move the first cell behind all others. A sequence with fewer than two cells stays as it is. -/
def rotateLeft (s : Sequence) : Sequence :=
  match s.frontCell?, s.back with
  | some (first, ⟨_, _, some second⟩), some last =>
      ((s.join none (some second)).join (some last) (some first)).join (some first) none
  | _, _ => s

/-- Move the last cell in front of all others. A sequence with fewer than two cells stays as it
is. -/
def rotateRight (s : Sequence) : Sequence :=
  match s.front, s.backCell? with
  | some first, some (last, ⟨_, some penultimate, _⟩) =>
      ((s.join (some penultimate) none).join (some last) (some first)).join none (some last)
  | _, _ => s

/-- Drop all values together with their slots and answer how many values there were. -/
def releaseAll (s : Sequence) : Nat × Sequence :=
  (s.length, empty)

/-- A value inserted in front gets its slot before the links change. -/
theorem pushFront_eq (s : Sequence) (value : Int32) :
    s.pushFront value =
      ((s.allocate value).2.join (some (s.allocate value).1) s.front).join none
        (some (s.allocate value).1) := rfl

/-- A value inserted behind gets its slot before the links change. -/
theorem pushBack_eq (s : Sequence) (value : Int32) :
    s.pushBack value =
      ((s.allocate value).2.join s.back (some (s.allocate value).1)).join
        (some (s.allocate value).1) none := rfl

@[simp] theorem push_stack (s : Sequence) (value : Int32) :
    s.push .stack value = s.pushFront value := rfl

@[simp] theorem push_queue (s : Sequence) (value : Int32) :
    s.push .queue value = s.pushBack value := rfl

/-- Where there is room, the storage makes no difference to an insertion. -/
theorem tryPush_of_hasRoom {s : Sequence} {storage : Storage} (h : s.hasRoom storage = true)
    (mode : Mode) (value : Int32) : s.tryPush mode value storage = (true, s.push mode value) := by
  cases mode with
  | stack =>
      simp only [tryPush, tryPushFront, allocate?, h, if_true]
      rfl
  | queue =>
      simp only [tryPush, tryPushBack, allocate?, h, if_true]
      rfl

/-- Where there is no room, nothing is inserted. -/
theorem tryPush_of_not_hasRoom {s : Sequence} {storage : Storage}
    (h : s.hasRoom storage = false) (mode : Mode) (value : Int32) :
    s.tryPush mode value storage = (false, s) := by
  cases mode <;> simp [tryPush, tryPushFront, tryPushBack, allocate?, h]

/-- The value that a removal answers is the one that could be read before. -/
theorem popFront_fst (s : Sequence) : s.popFront.1 = s.frontValue? := by
  unfold popFront frontValue?
  cases s.frontCell? <;> rfl

/-- A removal without answer changes nothing. -/
theorem popFront_of_eq_none {s : Sequence} (h : s.popFront.1 = none) : s.popFront.2 = s := by
  unfold popFront at h ⊢
  cases hfront : s.frontCell? with
  | none => rfl
  | some first => simp [hfront] at h

/-- An exchange that is not possible changes nothing. -/
theorem swapFront_of_eq_false {s : Sequence} (h : s.swapFront.1 = false) : s.swapFront.2 = s := by
  unfold swapFront at h ⊢
  cases hfront : s.frontCells? with
  | none => rfl
  | some cells => simp [hfront] at h

/-- A replacement that is not possible changes nothing. -/
theorem collapseFront_of_eq_false {s : Sequence} {value : Int32}
    (h : (s.collapseFront value).1 = false) : (s.collapseFront value).2 = s := by
  unfold collapseFront at h ⊢
  cases hfront : s.frontCells? with
  | none => rfl
  | some cells => simp [hfront] at h

end Sequence

end StackQueue
