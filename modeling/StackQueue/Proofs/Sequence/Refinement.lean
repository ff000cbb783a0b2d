import StackQueue.Proofs.Sequence.Walk
import StackQueue.Sequence.Operation

/-!
# Sequences as lists

Seen through its operations a sequence is a list of values. It replies to every history of
operations as the list does, and ends with the values, the length and the emptiness of the list.

## Implementation notes

A history keeps the replies beside the last state, and the state is a parameter, so one definition
serves sequences and lists.
-/

namespace StackQueue

variable {s : Sequence} {slots rest : List Nat} {x y : Int32} {values : List Int32}

namespace Operation

/-- The reply of a list and the list that an operation leaves. The head is the front. -/
def onList (values : List Int32) : Operation → Reply × List Int32
  | push .stack value => (.possible true, value :: values)
  | push .queue value => (.possible true, values ++ [value])
  | pushFront value => (.possible true, value :: values)
  | pushBack value => (.possible true, values ++ [value])
  | popFront => (.value values.head?, values.tail)
  | frontValue => (.value values.head?, values)
  | topTwo =>
      match values with
      | x :: y :: _ => (.pair (some (x, y)), values)
      | _ => (.pair none, values)
  | swapFront =>
      match values with
      | x :: y :: others => (.possible true, y :: x :: others)
      | _ => (.possible false, values)
  | collapseFront value =>
      match values with
      | _ :: _ :: others => (.possible true, value :: others)
      | _ => (.possible false, values)
  | rotateLeft =>
      match values with
      | [] => (.done, [])
      | x :: others => (.done, others ++ [x])
  | rotateRight =>
      match values.getLast? with
      | none => (.done, [])
      | some x => (.done, x :: values.dropLast)
  | releaseAll => (.count values.length, [])
  | iterate count =>
      (.met values.length ((List.range count).map fun index => values[index]?)
        (values.length - count), values)

end Operation

/-- The replies to operations carried out one after the other, and the state in the end. -/
def history {σ : Type} (apply : σ → Operation → Reply × σ) (state : σ) :
    List Operation → List Reply × σ
  | [] => ([], state)
  | operation :: operations =>
      let (reply, state) := apply state operation
      let (replies, state) := history apply state operations
      (reply :: replies, state)

theorem history_apply_snd (s : Sequence) (operations : List Operation) :
    (history Operation.apply s operations).2 = s.after operations := by
  induction operations generalizing s with
  | nil => rfl
  | cons operation operations ih => exact ih _

namespace Sequence

namespace Represents

theorem frontValue?_eq (h : s.Represents slots values) : s.frontValue? = values.head? := by
  cases values with
  | nil =>
      obtain rfl := h.slots_eq_nil
      simp [Sequence.frontValue?, h.frontCell?_eq_none]
  | cons x values =>
      obtain ⟨slot, rest, rfl⟩ := h.exists_cons
      simp [Sequence.frontValue?, h.frontCell?_eq_some]

/-- Operations on the first two values change nothing where there are not two. -/
theorem apply_of_frontCells?_eq_none (h : s.frontCells? = none) (value : Int32) :
    Operation.apply s .topTwo = (.pair none, s) ∧
      Operation.apply s .swapFront = (.possible false, s) ∧
      Operation.apply s (.collapseFront value) = (.possible false, s) := by
  simp [Operation.apply, Sequence.topTwo?, Sequence.swapFront, Sequence.collapseFront, h]

/-- Operations on the first two values reach them where there are two. -/
theorem apply_of_two {first second : Nat}
    (h : s.Represents (first :: second :: rest) (x :: y :: values)) (value : Int32) :
    Operation.apply s .topTwo = (.pair (some (x, y)), s) ∧
      Operation.apply s .swapFront = (.possible true, s.swapFront.2) ∧
      Operation.apply s (.collapseFront value) =
        (.possible true, (s.collapseFront value).2) := by
  simp [Operation.apply, Sequence.topTwo?, Sequence.swapFront, Sequence.collapseFront,
    h.frontCells?_eq_some]

/-- What an operation on a sequence and the same one on a list have to agree on. -/
def Agrees (s : Sequence) (values : List Int32) (operation : Operation) : Prop :=
  (operation.apply s).1 = (operation.onList values).1 ∧
    ∃ slots, (operation.apply s).2.Represents slots (operation.onList values).2

theorem agrees_of_eq {t : Sequence} {operation : Operation} {reply : Reply} {others : List Int32}
    (hsequence : operation.apply s = (reply, t)) (hlist : operation.onList values = (reply, others))
    (h : t.Represents slots others) : Agrees s values operation := by
  rw [Agrees, hsequence, hlist]
  exact ⟨rfl, slots, h⟩

theorem agrees_popFront (h : s.Represents slots values) : Agrees s values .popFront := by
  cases values with
  | nil =>
      refine agrees_of_eq ?_ rfl h
      simp only [Operation.apply, h.popFront_nil, List.head?_nil]
  | cons x values =>
      obtain ⟨slot, rest, rfl⟩ := h.exists_cons
      exact agrees_of_eq (Prod.ext (congrArg Reply.value h.fst_popFront) rfl) rfl h.popFront

theorem agrees_topTwo (h : s.Represents slots values) : Agrees s values .topTwo := by
  rcases h.shapes with ⟨rfl, rfl⟩ | ⟨slot, x, rfl, rfl⟩ | ⟨_, _, _, x, y, others, rfl, rfl⟩
  · exact agrees_of_eq (apply_of_frontCells?_eq_none h.frontCells?_nil 0).1 rfl h
  · exact agrees_of_eq (apply_of_frontCells?_eq_none h.frontCells?_singleton 0).1 rfl h
  · exact agrees_of_eq (h.apply_of_two 0).1 rfl h

theorem agrees_swapFront (h : s.Represents slots values) : Agrees s values .swapFront := by
  rcases h.shapes with ⟨rfl, rfl⟩ | ⟨slot, x, rfl, rfl⟩ | ⟨_, _, _, x, y, others, rfl, rfl⟩
  · exact agrees_of_eq (apply_of_frontCells?_eq_none h.frontCells?_nil 0).2.1 rfl h
  · exact agrees_of_eq (apply_of_frontCells?_eq_none h.frontCells?_singleton 0).2.1 rfl h
  · exact agrees_of_eq (h.apply_of_two 0).2.1 rfl h.swapFront

theorem agrees_collapseFront (h : s.Represents slots values) (value : Int32) :
    Agrees s values (.collapseFront value) := by
  rcases h.shapes with ⟨rfl, rfl⟩ | ⟨slot, x, rfl, rfl⟩ | ⟨_, _, _, x, y, others, rfl, rfl⟩
  · exact agrees_of_eq (apply_of_frontCells?_eq_none h.frontCells?_nil value).2.2 rfl h
  · exact agrees_of_eq (apply_of_frontCells?_eq_none h.frontCells?_singleton value).2.2 rfl h
  · exact agrees_of_eq (h.apply_of_two value).2.2 rfl (h.collapseFront value)

theorem agrees_rotateLeft (h : s.Represents slots values) : Agrees s values .rotateLeft := by
  cases values with
  | nil =>
      obtain rfl := h.slots_eq_nil
      exact agrees_of_eq (congrArg (Prod.mk Reply.done) h.rotateLeft_nil) rfl h
  | cons x values =>
      obtain ⟨slot, rest, rfl⟩ := h.exists_cons
      exact agrees_of_eq rfl rfl h.rotateLeft

theorem agrees_rotateRight (h : s.Represents slots values) : Agrees s values .rotateRight := by
  rcases h.eq_nil_or_concat with ⟨rfl, rfl⟩ | ⟨init, slot, others, x, rfl, rfl⟩
  · exact agrees_of_eq (congrArg (Prod.mk Reply.done) h.rotateRight_nil) rfl h
  · have hlist : Operation.rotateRight.onList (others ++ [x]) = (.done, x :: others) := by
      simp [Operation.onList]
    exact agrees_of_eq rfl hlist h.rotateRight

theorem agrees_iterate (h : s.Represents slots values) (count : Nat) :
    Agrees s values (.iterate count) := by
  have htake := take_of_walk h.ring.walk_follower h.values_eq count
  have hcursor : s.cursor = ⟨s.front, values.length⟩ := by rw [cursor, h.length_values]
  refine agrees_of_eq ?_ rfl h
  simp only [Operation.apply, hcursor, htake]

/-- One operation gets the same reply from a sequence and from the list that it represents, and
leaves a sequence that represents the list left by the other. -/
theorem agrees (h : s.Represents slots values) (operation : Operation) :
    Agrees s values operation := by
  cases operation with
  | push mode value =>
      cases mode with
      | stack => exact agrees_of_eq rfl rfl (h.pushFront value)
      | queue => exact agrees_of_eq rfl rfl (h.pushBack value)
  | pushFront value => exact agrees_of_eq rfl rfl (h.pushFront value)
  | pushBack value => exact agrees_of_eq rfl rfl (h.pushBack value)
  | popFront => exact h.agrees_popFront
  | frontValue => exact agrees_of_eq (Prod.ext (congrArg Reply.value h.frontValue?_eq) rfl) rfl h
  | topTwo => exact h.agrees_topTwo
  | swapFront => exact h.agrees_swapFront
  | collapseFront value => exact h.agrees_collapseFront value
  | rotateLeft => exact h.agrees_rotateLeft
  | rotateRight => exact h.agrees_rotateRight
  | releaseAll =>
      exact agrees_of_eq (Prod.ext (congrArg Reply.count h.length_values.symm) rfl) rfl
        represents_empty
  | iterate count => exact h.agrees_iterate count

theorem isEmpty_iff (h : s.Represents slots values) : s.isEmpty = true ↔ values = [] := by
  have hlength := congrArg List.length h.values_eq
  simp only [List.length_map] at hlength
  rw [isEmpty, h.ring.front_eq, Option.isNone_iff_eq_none, List.head?_eq_none_iff,
    ← List.length_eq_zero_iff, ← List.length_eq_zero_iff, hlength]

/-- A history gets the same replies from a sequence and from the list that it represents. -/
theorem history (h : s.Represents slots values) (operations : List Operation) :
    (history Operation.apply s operations).1 = (history Operation.onList values operations).1 ∧
      ∃ slots, (StackQueue.history Operation.apply s operations).2.Represents slots
        (StackQueue.history Operation.onList values operations).2 := by
  induction operations generalizing s slots values with
  | nil => exact ⟨rfl, slots, h⟩
  | cons operation operations ih =>
      obtain ⟨hreply, slots, hstep⟩ := h.agrees operation
      obtain ⟨hreplies, hrest⟩ := ih hstep
      refine ⟨?_, hrest⟩
      simp only [StackQueue.history, hreply, hreplies]

end Represents

/-- Every sequence that operations can reach represents some values. -/
theorem exists_represents_after (operations : List Operation) :
    ∃ slots values, (empty.after operations).Represents slots values := by
  obtain ⟨-, slots, h⟩ := represents_empty.history operations
  rw [history_apply_snd] at h
  exact ⟨slots, _, h⟩

/-- A sequence answers every history as a list does, and holds the values of that list. -/
theorem history_refines_list (operations : List Operation) :
    let sequence := history Operation.apply empty operations
    let list := history Operation.onList [] operations
    sequence.1 = list.1 ∧ sequence.2.toList = list.2 ∧
      sequence.2.length = sequence.2.toList.length ∧
      (sequence.2.isEmpty = true ↔ sequence.2.toList = []) := by
  obtain ⟨hreplies, slots, h⟩ := represents_empty.history operations
  refine ⟨hreplies, h.toList_eq, ?_, ?_⟩
  · rw [h.toList_eq, h.length_values]
  · rw [h.toList_eq, h.isEmpty_iff]

end Sequence

end StackQueue
