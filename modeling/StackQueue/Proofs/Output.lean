import StackQueue.Sink

/-!
# Output in pieces

What an output takes does not depend on the pieces in which it is written. Pieces written one after
the other, up to the first that does not fit, leave it as one write of all of them does.
-/

namespace StackQueue.Sink

/-- Write pieces one after the other and stop at the first that does not fit. -/
def writeEach (sink : Sink) : List (List UInt8) → Bool × Sink
  | [] => (true, sink)
  | piece :: pieces =>
      match sink.write piece with
      | (true, sink) => sink.writeEach pieces
      | (false, sink) => (false, sink)

theorem write_eq_of_fits {sink : Sink} {chunk : List UInt8} (h : sink.fits chunk = true) :
    sink.write chunk = (true, { sink with written := sink.written ++ chunk }) := by
  rw [write, h, accepted_of_fits h]

/-- What is taken of a chunk that does not fit is a first part of it and not all of it. -/
theorem accepted_proper_of_not_fits {sink : Sink} {chunk : List UInt8}
    (h : sink.fits chunk = false) :
    sink.accepted chunk <+: chunk ∧ sink.accepted chunk ≠ chunk := by
  obtain ⟨room, hroom, haccepted⟩ := accepted_of_not_fits h
  rw [haccepted]
  refine ⟨List.take_prefix room chunk, ?_⟩
  intro hall
  have hlength := congrArg List.length hall
  rw [List.length_take] at hlength
  omega

theorem append_append (written : Array UInt8) (first second : List UInt8) :
    written ++ (first ++ second) = written ++ first ++ second := by
  apply Array.toList_inj.mp
  simp only [Array.toList_appendList, List.append_assoc]

theorem size_append (written : Array UInt8) (chunk : List UInt8) :
    (written ++ chunk).size = written.size + chunk.length := by
  rw [← Array.length_toList, Array.toList_appendList, List.length_append, Array.length_toList]

/-- Where the first part fits, the rest is written behind it. -/
theorem write_append_of_fits {sink : Sink} {first second : List UInt8}
    (h : sink.fits first = true) :
    sink.write (first ++ second) =
      ({ sink with written := sink.written ++ first } : Sink).write second := by
  obtain ⟨limit, failsFlush, written⟩ := sink
  cases limit with
  | none => simp [write, fits, accepted, append_append]
  | some limit =>
      have hroom : first.length ≤ limit - written.size := by simpa [fits] using h
      have hrest : limit - (written.size + first.length) =
          limit - written.size - first.length := by omega
      have hfits : first.length + second.length ≤ limit - written.size ↔
          second.length ≤ limit - written.size - first.length := by omega
      simp only [write, fits, accepted, List.length_append, List.take_append,
        List.take_of_length_le hroom, append_append, size_append, hrest, hfits]

/-- Where the first part does not fit, nothing of the rest is taken. -/
theorem write_append_of_not_fits {sink : Sink} {first second : List UInt8}
    (h : sink.fits first = false) : sink.write (first ++ second) = sink.write first := by
  obtain ⟨limit, failsFlush, written⟩ := sink
  cases limit with
  | none => cases h
  | some limit =>
      have hroom : ¬ first.length ≤ limit - written.size := by simpa [fits] using h
      have hzero : limit - written.size - first.length = 0 := by omega
      have hfits : ¬ first.length + second.length ≤ limit - written.size := by omega
      simp only [write, fits, accepted, List.length_append, List.take_append, hzero,
        List.take_zero, List.append_nil, hroom, hfits]

/-- The pieces in which octets are written make no difference. -/
theorem writeEach_eq_write (sink : Sink) (pieces : List (List UInt8)) :
    sink.writeEach pieces = sink.write pieces.flatten := by
  induction pieces generalizing sink with
  | nil => exact (write_nil sink).symm
  | cons piece pieces ih =>
      rw [writeEach, List.flatten_cons]
      cases hfits : sink.fits piece with
      | true =>
          rw [write_append_of_fits hfits, write_eq_of_fits hfits]
          exact ih _
      | false =>
          have hpiece : sink.write piece =
              (false, { sink with written := sink.written ++ sink.accepted piece }) := by
            rw [write, hfits]
          rw [write_append_of_not_fits hfits, hpiece]

example : (fresh (some 2) false).writeEach [[1], [2, 3]] = (false, ⟨some 2, false, #[1, 2]⟩) := by
  decide

end StackQueue.Sink
