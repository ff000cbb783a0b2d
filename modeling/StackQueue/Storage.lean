/-!
# Storage that can be refused

A sequence asks for storage when it has to grow: for one more cell in the array of cells, and then
for a list of free slots that could name every cell. Each request is granted or refused by the size
that it asks for. Where no storage is named, it is plentiful.

## Implementation notes

A run asks for each size at most once, since the array of cells never shrinks before the end and
the first refusal stops the run. So answers by size cover every way in which a run can be answered.
-/

namespace StackQueue

/-- What is answered when the array of cells and the list of free slots have to grow. -/
structure Storage where
  /-- Whether the array of cells may hold so many cells. -/
  cells : Nat → Bool
  /-- Whether the list of free slots may hold so many slots. -/
  slots : Nat → Bool

namespace Storage

/-- Storage that is never refused. -/
def plentiful : Storage :=
  ⟨fun _ => true, fun _ => true⟩

/-- Storage for so many cells and no more. -/
def bounded (capacity : Nat) : Storage :=
  ⟨fun size => size ≤ capacity, fun _ => true⟩

/-- Whether a sequence may grow to so many cells. The list of free slots is asked for only where the
cells are granted. -/
def grants (storage : Storage) (size : Nat) : Bool :=
  storage.cells size && storage.slots size

end Storage

end StackQueue
