import StackQueue.Proofs.Instruction.Printing
import StackQueue.Proofs.Machine.Listing

/-!
# What a run writes to its two streams

The output of a run is seven-bit text made of complete lines, and its error stream is empty exactly
if it succeeds. Each instruction that is carried out and that prints adds one chunk to the output,
in the order of the lines. A chunk ends with a newline unless it shows the values of an empty
sequence.

## Implementation notes

A chunk is what an output has taken more behind a line than in front of it, so it is observed and
not computed by the rules of printing.
-/

namespace StackQueue

/-- What an instruction has written: its line, the values that it found, and the octets. -/
structure Chunk where
  line : Nat
  instruction : Instruction
  values : List Int32
  octets : List UInt8
  deriving DecidableEq

/-- A chunk of a printing instruction is seven-bit text. It is empty exactly if there was no value
for `pall` to show, and ends with a newline otherwise. -/
structure Chunk.WellFormed (chunk : Chunk) : Prop where
  prints : chunk.instruction.prints = true
  sevenBit : ∀ octet ∈ chunk.octets, octet < 0x80
  eq_nil_iff : chunk.octets = [] ↔ chunk.instruction = .pall ∧ chunk.values = []
  eq_nil_or_ended : chunk.octets = [] ∨ chunk.octets.getLast? = some Printed.newline

namespace Sink

/-- An output that has taken nothing but seven-bit text. -/
def SevenBit (sink : Sink) : Prop :=
  ∀ octet ∈ sink.written.toList, octet < 0x80

/-- Whatever part of a seven-bit chunk is taken, it is seven-bit text. -/
theorem SevenBit.write {sink : Sink} (h : sink.SevenBit) {chunk : List UInt8}
    (hchunk : ∀ octet ∈ chunk, octet < 0x80) : (sink.write chunk).2.SevenBit := by
  have haccepted : sink.accepted chunk <+: chunk := by
    cases hfits : sink.fits chunk with
    | true => exact ⟨[], by rw [accepted_of_fits hfits, List.append_nil]⟩
    | false => exact (accepted_proper_of_not_fits hfits).1
  intro octet hoctet
  rw [Sink.write, Array.toList_appendList] at hoctet
  rcases List.mem_append.mp hoctet with hbefore | hafter
  · exact h octet hbefore
  · exact hchunk octet (haccepted.subset hafter)

end Sink

namespace Machine

variable {m : Machine} {line : Nat} {statement : Statement} {instruction : Instruction}

/-- The chunk of a statement that asks for an instruction that prints. -/
def chunk? (m : Machine) (line : Nat) (statement : Statement) : Option Chunk :=
  match statement.action? line with
  | .ok (some (.perform instruction)) =>
      if instruction.prints then
        some ⟨line, instruction, m.sequence.toList,
          (m.step line statement).machine.sink.written.toList.drop m.sink.written.size⟩
      else
        none
  | _ => none

/-- The chunks of statements, one for each that prints, up to the first statement that fails. -/
def chunks (m : Machine) : List (Nat × Statement) → List Chunk
  | [] => []
  | (line, statement) :: statements =>
      match (m.step line statement).failure? with
      | some _ => []
      | none =>
          (m.chunk? line statement).toList ++ (m.step line statement).machine.chunks statements

/-! ### Seven-bit text -/

theorem sevenBit_execute (h : m.sink.SevenBit) (line : Nat) (instruction : Instruction) :
    (m.execute line instruction).machine.sink.SevenBit := by
  cases hperform : (instruction.perform m.mode line m.sequence).1 with
  | error failure =>
      rw [execute_of_error hperform]
      exact h
  | ok octets =>
      have hwrite := h.write (Instruction.lt_of_perform hperform)
      cases hfits : m.sink.fits octets with
      | true =>
          rw [execute_of_fits hperform hfits]
          rwa [Sink.write_eq_of_fits hfits] at hwrite
      | false =>
          rw [execute_of_not_fits hperform hfits]
          exact hwrite

theorem sevenBit_step (h : m.sink.SevenBit) (line : Nat) (statement : Statement) :
    (m.step line statement).machine.sink.SevenBit := by
  by_cases hasks : ∃ instruction, statement.action? line = .ok (some (.perform instruction))
  · obtain ⟨instruction, hasks⟩ := hasks
    rw [step_of_asks hasks]
    exact sevenBit_execute h line instruction
  · obtain ⟨-, -, hsink⟩ := step_of_not_asks (not_exists.mp hasks) m .plentiful
    rw [hsink]
    exact h

/-- Whatever the output and however they end, statements write seven-bit text. -/
theorem sevenBit_runStatements (h : m.sink.SevenBit) (statements : List (Nat × Statement)) :
    (m.runStatements statements).machine.sink.SevenBit := by
  apply preserved_runStatements (P := fun m => m.sink.SevenBit)
  · intro m line statement h
    exact sevenBit_step h line statement
  · exact h

/-! ### Chunks -/

theorem chunk?_of_asks (h : statement.action? line = .ok (some (.perform instruction))) :
    m.chunk? line statement =
      if instruction.prints then
        some ⟨line, instruction, m.sequence.toList,
          (m.step line statement).machine.sink.written.toList.drop m.sink.written.size⟩
      else
        none := by
  rw [chunk?, h]

theorem chunk?_of_not_asks
    (h : ∀ instruction, statement.action? line ≠ .ok (some (.perform instruction))) :
    m.chunk? line statement = none := by
  unfold chunk?
  split
  · next instruction hasks => exact absurd hasks (h instruction)
  · rfl

/-- An output that takes everything has taken all that a carried out instruction prints. -/
theorem exists_octets_of_execute (hwide : m.sink.limit = none)
    (h : (m.execute line instruction).failure? = none) :
    ∃ octets, (instruction.perform m.mode line m.sequence).1 = .ok octets ∧
      (m.execute line instruction).machine.sink.written.toList =
        m.sink.written.toList ++ octets := by
  cases hperform : (instruction.perform m.mode line m.sequence).1 with
  | error failure =>
      rw [execute_of_error hperform] at h
      cases h
  | ok octets =>
      have hfits : m.sink.fits octets = true := by rw [Sink.fits, hwide]
      rw [execute_of_fits hperform hfits]
      exact ⟨octets, rfl, Array.toList_appendList⟩

/-- The chunk of a statement that is carried out is well formed, and all that it writes. -/
theorem chunk?_spec (hwide : m.sink.limit = none)
    (h : (m.step line statement).failure? = none) :
    (m.step line statement).machine.sink.written.toList =
        m.sink.written.toList ++ (m.chunk? line statement).toList.flatMap Chunk.octets ∧
      ∀ chunk ∈ (m.chunk? line statement).toList, chunk.WellFormed ∧ chunk.line = line := by
  by_cases hasks : ∃ instruction, statement.action? line = .ok (some (.perform instruction))
  · obtain ⟨instruction, hasks⟩ := hasks
    have hstep := step_of_asks hasks m .plentiful
    rw [hstep] at h
    obtain ⟨octets, hperform, hwritten⟩ := exists_octets_of_execute hwide h
    have hafter : (m.step line statement).machine.sink.written.toList =
        m.sink.written.toList ++ octets := by
      rw [hstep]
      exact hwritten
    rw [chunk?_of_asks hasks, hafter, ← Array.length_toList, List.drop_left]
    cases hprints : instruction.prints with
    | true =>
        rw [if_pos rfl, Option.toList_some, List.flatMap_singleton]
        refine ⟨rfl, List.forall_mem_singleton.mpr ⟨⟨hprints, ?_, ?_, ?_⟩, rfl⟩⟩
        · exact Instruction.lt_of_perform hperform
        · obtain ⟨rfl, hempty⟩ | ⟨hended, hne⟩ := Instruction.ended_of_perform hperform hprints
          · exact iff_of_true rfl hempty
          · exact iff_of_false (by rintro rfl; cases hended) hne
        · obtain ⟨hnil, -⟩ | ⟨hended, -⟩ := Instruction.ended_of_perform hperform hprints
          · exact Or.inl hnil
          · exact Or.inr hended
    | false =>
        rw [Instruction.eq_nil_of_perform hperform hprints]
        exact ⟨rfl, List.forall_mem_nil _⟩
  · have hnot := not_exists.mp hasks
    rw [chunk?_of_not_asks hnot, (step_of_not_asks hnot m .plentiful).2.2]
    exact ⟨(List.append_nil _).symm, List.forall_mem_nil _⟩

variable {statements : List (Nat × Statement)} {failure : Failure}

theorem chunks_cons_of_failure (h : (m.step line statement).failure? = some failure) :
    m.chunks ((line, statement) :: statements) = [] := by
  rw [chunks, h]

theorem chunks_cons_of_success (h : (m.step line statement).failure? = none) :
    m.chunks ((line, statement) :: statements) =
      (m.chunk? line statement).toList ++ (m.step line statement).machine.chunks statements := by
  rw [chunks, h]

/-- An output that takes everything takes the chunks of the statements and nothing else. -/
theorem written_runStatements (hwide : m.sink.limit = none) (statements : List (Nat × Statement)) :
    (m.runStatements statements).machine.sink.written.toList =
      m.sink.written.toList ++ (m.chunks statements).flatMap Chunk.octets := by
  induction statements generalizing m with
  | nil => exact (List.append_nil _).symm
  | cons statement statements ih =>
      obtain ⟨line, statement⟩ := statement
      rw [runStatements_cons]
      cases hfailure : (m.step line statement).failure? with
      | some failure =>
          have hne : failure ≠ .output := by
            rintro rfl
            exact step_ne_output hwide line statement hfailure
          rw [Outcome.andThen_of_failure hfailure, chunks_cons_of_failure hfailure,
            sink_of_step hfailure hne, List.flatMap_nil, List.append_nil]
      | none =>
          rw [Outcome.andThen_of_success _ hfailure, chunks_cons_of_success hfailure,
            List.flatMap_append, ← List.append_assoc, ← (chunk?_spec hwide hfailure).1]
          exact ih ((growsTo_step m line statement).limit_eq.trans hwide)

/-- Every chunk is well formed, and there is at most one for each statement, in order. -/
theorem chunks_spec (hwide : m.sink.limit = none) (statements : List (Nat × Statement)) :
    (∀ chunk ∈ m.chunks statements, chunk.WellFormed) ∧
      ((m.chunks statements).map Chunk.line).Sublist (statements.map Prod.fst) := by
  induction statements generalizing m with
  | nil => exact ⟨List.forall_mem_nil _, .slnil⟩
  | cons statement statements ih =>
      obtain ⟨line, statement⟩ := statement
      cases hfailure : (m.step line statement).failure? with
      | some failure =>
          rw [chunks_cons_of_failure hfailure]
          exact ⟨List.forall_mem_nil _, List.nil_sublist _⟩
      | none =>
          obtain ⟨hformed, hlines⟩ := ih ((growsTo_step m line statement).limit_eq.trans hwide)
          have hchunk := (chunk?_spec hwide hfailure).2
          rw [chunks_cons_of_success hfailure, List.map_append, List.map_cons]
          refine ⟨List.forall_mem_append.mpr ⟨fun chunk h => (hchunk chunk h).1, hformed⟩, ?_⟩
          cases hprints : m.chunk? line statement with
          | none => exact hlines.cons line
          | some chunk =>
              rw [hprints] at hchunk
              rw [Option.toList_some, List.map_singleton, (List.forall_mem_singleton.mp hchunk).2]
              exact hlines.cons_cons line

end Machine

namespace Run

/-- Lines are numbered upwards. -/
theorem pairwise_fst_numbered (source : String) :
    ((Statement.numbered source).map Prod.fst).Pairwise (· < ·) := by
  rw [Statement.numbered_eq, Statement.numberedFrom, List.map_map]
  change (((Text.lines source.toList).zipIdx 1).map Prod.snd).Pairwise (· < ·)
  rw [List.zipIdx_map_snd]
  exact List.pairwise_lt_range'

theorem diagnostic_ne_empty (failure : Failure) : failure.diagnostic ≠ "" := by
  intro h
  have hlast := congrArg String.toList h
  rw [Failure.diagnostic, String.toList_append] at hlast
  exact List.append_ne_nil_of_right_ne_nil _ (by decide) hlast

/-- Chunks that are empty or end with a newline make up complete lines. -/
theorem ended_of_chunks {chunks : List Chunk} (h : ∀ chunk ∈ chunks, chunk.WellFormed) :
    chunks.flatMap Chunk.octets = [] ∨
      (chunks.flatMap Chunk.octets).getLast? = some Printed.newline := by
  induction chunks with
  | nil => exact Or.inl rfl
  | cons chunk chunks ih =>
      obtain ⟨hchunk, hchunks⟩ := List.forall_mem_cons.mp h
      rw [List.flatMap_cons, List.getLast?_append]
      rcases ih hchunks with hnil | hended
      · rw [hnil, List.append_nil]
        exact hchunk.eq_nil_or_ended
      · rw [hended]
        exact Or.inr rfl

/-- The streams of a run, whatever its program and its output. It writes seven-bit text only, it
ends with one of two statuses, and its error stream is empty exactly if it succeeds. In front of an
output that takes everything, the output is empty or ends with a newline, and it is made up of one
chunk for each instruction that was carried out and that prints, in the order of their lines. Each
chunk is well formed. -/
theorem streams_well_formed (source : String) (limit : Option Nat) (failsFlush : Bool) :
    let run := ofSource source (.fresh limit failsFlush)
    let wide := ofSource source (.fresh none failsFlush)
    let chunks := (Machine.start (.fresh none failsFlush)).chunks (Statement.numbered source)
    (∀ octet ∈ run.output.toList, octet < 0x80) ∧
    (run.status = 0 ∨ run.status = 1) ∧ (run.status = 0 ↔ run.diagnostic = "") ∧
    (wide.output.toList = [] ∨ wide.output.toList.getLast? = some Printed.newline) ∧
    wide.output.toList = chunks.flatMap Chunk.octets ∧
    (chunks.map Chunk.line).Pairwise (· < ·) ∧ ∀ chunk ∈ chunks, chunk.WellFormed := by
  intro run wide chunks
  have hwritten : wide.output.toList = chunks.flatMap Chunk.octets := by
    rw [output_ofSource]
    exact Machine.written_runStatements rfl _
  obtain ⟨hformed, hlines⟩ := Machine.chunks_spec (m := Machine.start (.fresh none failsFlush)) rfl
    (Statement.numbered source)
  refine ⟨?_, ?_, ?_, ?_, hwritten, (pairwise_fst_numbered source).sublist hlines, hformed⟩
  · rw [output_ofSource]
    have hstart : (Machine.start (.fresh limit failsFlush)).sink.SevenBit := List.forall_mem_nil _
    exact Machine.sevenBit_runStatements hstart _
  · unfold status
    cases run.failure? with
    | none => exact Or.inl rfl
    | some failure => exact Or.inr rfl
  · rw [status_eq_zero_iff, diagnostic]
    cases run.failure? with
    | none => exact iff_of_true rfl rfl
    | some failure => exact iff_of_false (Option.some_ne_none failure) (diagnostic_ne_empty failure)
  · rw [hwritten]
    exact ended_of_chunks hformed

example : (Machine.start .unbounded).chunks
    (Statement.numbered "pall\npush 10\npchar\npop\npstr\npint") =
    [⟨1, .pall, [], []⟩, ⟨3, .pchar, [10], [10, 10]⟩, ⟨5, .pstr, [], [10]⟩] := by
  decide +kernel

end Run

end StackQueue
