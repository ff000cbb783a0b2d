import StackQueue.Sequence.Basic

/-!
# Reading a sequence from front to back

A cursor stands before one cell and knows how many values are still to come. It never changes the
sequence that it reads. The values of a sequence, `Sequence.toList`, are what a cursor from the
front meets.

## Implementation notes

The number of values still to come bounds the walk, so it ends whatever the links say.
-/

namespace StackQueue

/-- A position in a sequence. -/
structure Cursor where
  /-- The slot of the next value, if there is one. -/
  slot : Option Nat
  /-- The number of values still to come. -/
  remaining : Nat
  deriving DecidableEq

namespace Cursor

/-- The next value, if there is one, and the position behind it. -/
def next (cursor : Cursor) (s : Sequence) : Option Int32 × Cursor :=
  match cursor.slot.bind fun slot => s.cells[slot]? with
  | none => (none, cursor)
  | some cell => (some cell.value, ⟨cell.next, cursor.remaining - 1⟩)

/-- The answers to the next `count` requests, and the position behind them. -/
def take (cursor : Cursor) (s : Sequence) : Nat → List (Option Int32) × Cursor
  | 0 => ([], cursor)
  | count + 1 =>
      let (value?, cursor) := cursor.next s
      let (values, cursor) := take cursor s count
      (value? :: values, cursor)

/-- The least number of values still to come, and the greatest if there is one. -/
def sizeHint (cursor : Cursor) : Nat × Option Nat :=
  (cursor.remaining, some cursor.remaining)

/-- The number of values still to come, where both bounds of it agree. -/
def length? (cursor : Cursor) : Option Nat :=
  if cursor.sizeHint.2 = some cursor.sizeHint.1 then some cursor.sizeHint.1 else none

/-- Add to `met` the values that a cursor meets in at most `count` moves. -/
def collect (s : Sequence) : Nat → Cursor → Array Int32 → Array Int32
  | 0, _, met => met
  | count + 1, cursor, met =>
      match cursor.next s with
      | (none, _) => met
      | (some value, cursor) => collect s count cursor (met.push value)

end Cursor

namespace Sequence

/-- The position before the first value. -/
def cursor (s : Sequence) : Cursor :=
  ⟨s.front, s.length⟩

/-- The values from front to back. -/
def toList (s : Sequence) : List Int32 :=
  (s.cursor.collect s s.length #[]).toList

end Sequence

end StackQueue
