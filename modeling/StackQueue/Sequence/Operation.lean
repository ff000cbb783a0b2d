import StackQueue.Sequence.Cursor

/-!
# Operations on a sequence as data

Everything that can be asked of a sequence, what it answers, and the run of a list of operations.
A history of a sequence is such a list, applied to the empty sequence.
-/

namespace StackQueue

/-- What can be asked of a sequence. -/
inductive Operation where
  /-- Insert at the end that the mode names. -/
  | push (mode : Mode) (value : Int32)
  /-- Insert in front. -/
  | pushFront (value : Int32)
  /-- Insert behind. -/
  | pushBack (value : Int32)
  /-- Remove the first value. -/
  | popFront
  /-- Read the first value. -/
  | frontValue
  /-- Read the first two values. -/
  | topTwo
  /-- Exchange the first two values. -/
  | swapFront
  /-- Replace the first two values by one. -/
  | collapseFront (value : Int32)
  /-- Move the first value to the back. -/
  | rotateLeft
  /-- Move the last value to the front. -/
  | rotateRight
  /-- Drop all values. -/
  | releaseAll
  /-- Ask a new cursor for `count` values. -/
  | iterate (count : Nat)
  deriving DecidableEq

/-- What a sequence answers. -/
inductive Reply where
  /-- Nothing to tell. -/
  | done
  /-- Whether the operation was possible. -/
  | possible (answer : Bool)
  /-- A value, if there is one. -/
  | value (value? : Option Int32)
  /-- Two values, if there are two. -/
  | pair (values? : Option (Int32 × Int32))
  /-- A number of values. -/
  | count (number : Nat)
  /-- The answers of a cursor, and how many values it had to come before and after. -/
  | met (before : Nat) (values : List (Option Int32)) (after : Nat)
  deriving DecidableEq

namespace Operation

/-- Carry out one operation. -/
def apply (s : Sequence) : Operation → Reply × Sequence
  | push mode value => (.possible true, s.push mode value)
  | pushFront value => (.possible true, s.pushFront value)
  | pushBack value => (.possible true, s.pushBack value)
  | popFront =>
      let (value?, s) := s.popFront
      (.value value?, s)
  | frontValue => (.value s.frontValue?, s)
  | topTwo => (.pair s.topTwo?, s)
  | swapFront =>
      let (answer, s) := s.swapFront
      (.possible answer, s)
  | collapseFront value =>
      let (answer, s) := s.collapseFront value
      (.possible answer, s)
  | rotateLeft => (.done, s.rotateLeft)
  | rotateRight => (.done, s.rotateRight)
  | releaseAll =>
      let (number, s) := s.releaseAll
      (.count number, s)
  | iterate count =>
      let (values, cursor) := s.cursor.take s count
      (.met s.cursor.remaining values cursor.remaining, s)

end Operation

namespace Sequence

/-- Carry out operations one after the other. -/
def after (s : Sequence) (operations : List Operation) : Sequence :=
  operations.foldl (fun s operation => (operation.apply s).2) s

end Sequence

end StackQueue
