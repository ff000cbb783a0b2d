/-!
# Bounded output

A sink takes octets until it is full. A write that does not fit as a whole is taken as far as there
is room and then fails; writing nothing never fails. Flushing takes no room and fails for good or
not at all.
-/

namespace StackQueue

/-- An output in memory. -/
structure Sink where
  /-- The number of octets that the sink takes in all, if it is bounded. -/
  limit : Option Nat
  /-- Whether every flush fails. -/
  failsFlush : Bool
  /-- The octets taken so far. -/
  written : Array UInt8
  deriving DecidableEq

namespace Sink

/-- A sink that has taken nothing yet. -/
def fresh (limit : Option Nat) (failsFlush : Bool) : Sink :=
  ⟨limit, failsFlush, #[]⟩

/-- A sink that takes everything. -/
def unbounded : Sink :=
  fresh none false

/-- The part of a chunk for which there is room. -/
def accepted (sink : Sink) (chunk : List UInt8) : List UInt8 :=
  match sink.limit with
  | none => chunk
  | some limit => chunk.take (limit - sink.written.size)

/-- Whether there is room for a whole chunk. -/
def fits (sink : Sink) (chunk : List UInt8) : Bool :=
  match sink.limit with
  | none => true
  | some limit => chunk.length ≤ limit - sink.written.size

/-- Take what there is room for and answer whether that was all. -/
def write (sink : Sink) (chunk : List UInt8) : Bool × Sink :=
  (sink.fits chunk, { sink with written := sink.written ++ sink.accepted chunk })

/-- A chunk that fits is accepted as it is. -/
theorem accepted_of_fits {sink : Sink} {chunk : List UInt8} (h : sink.fits chunk = true) :
    sink.accepted chunk = chunk := by
  unfold fits at h
  unfold accepted
  split
  · rfl
  · next limit hlimit =>
    rw [hlimit] at h
    exact List.take_of_length_le (by simpa using h)

/-- Of a chunk that does not fit, only a proper part is accepted. -/
theorem accepted_of_not_fits {sink : Sink} {chunk : List UInt8} (h : sink.fits chunk = false) :
    ∃ room < chunk.length, sink.accepted chunk = chunk.take room := by
  unfold fits at h
  unfold accepted
  split
  · next hlimit => simp [hlimit] at h
  · next limit hlimit =>
    rw [hlimit] at h
    exact ⟨limit - sink.written.size, by simpa using h, rfl⟩

/-- Writing nothing succeeds, also on a full sink, and changes nothing. -/
theorem write_nil (sink : Sink) : sink.write [] = (true, sink) := by
  obtain ⟨limit, failsFlush, written⟩ := sink
  cases limit <;> simp [write, fits, accepted]

end Sink

end StackQueue
