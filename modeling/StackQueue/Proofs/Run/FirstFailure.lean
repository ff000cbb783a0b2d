import StackQueue.Proofs.Run.Ending
import StackQueue.Proofs.Text.Cutting

/-!
# The first bad line of a program

A program whose lines fail on an output that takes everything fails because of one line, which the
failure names. Without this line and what follows it the program succeeds and prints the same; with
it the program fails in the same way whatever follows. A program that succeeds also succeeds when
it is cut behind one of its lines.
-/

namespace StackQueue.Run

variable {source text : String} {sink : Sink} {failure : Failure}

/-- The part of a program that ends with its line number `count`. -/
def cut (count : Nat) (source : String) : String :=
  String.ofList (Text.firstLines count source.toList)

theorem numbered_cut (count : Nat) (source : String) :
    Statement.numbered (cut count source) = (Statement.numbered source).take count := by
  rw [Statement.numbered_eq, Statement.numbered_eq, cut, String.toList_ofList,
    Text.lines_firstLines, Statement.numberedFrom_take]

/-- A statement has the number of its line, and the statements in front of it are those of the
program cut in front of this line. -/
theorem numbered_cut_of_eq_append {before later : List (Nat × Statement)} {line : Nat}
    {statement : Statement}
    (h : Statement.numbered source = before ++ (line, statement) :: later) :
    line = 1 + before.length ∧ Statement.numbered (cut (line - 1) source) = before := by
  have hline : line = 1 + before.length := by
    rw [Statement.numbered_eq] at h
    obtain ⟨_, -, hline, -⟩ := Statement.exists_of_numberedFrom_eq_append h
    exact hline
  refine ⟨hline, ?_⟩
  rw [numbered_cut, h, hline, Nat.add_sub_cancel_left, List.take_left]

/-- Behind a newline that ends line number `count`, any text may follow the statements so far. -/
theorem numbered_append_newline {first rest : List Char} (h : source.toList = first ++ '\n' :: rest)
    (other : List Char) :
    ∃ later, Statement.numbered (String.ofList (first ++ '\n' :: other)) =
      (Statement.numbered source).take (first.count '\n' + 1) ++ later := by
  have hsplit (tail : List Char) : Text.lines (first ++ '\n' :: tail) =
      Text.lines (first ++ ['\n']) ++ Text.lines tail := by
    rw [List.append_cons]
    exact Text.lines_append List.getLast?_concat tail
  refine ⟨Statement.numberedFrom (1 + (Text.lines (first ++ ['\n'])).length) (Text.lines other), ?_⟩
  rw [Statement.numbered_eq, Statement.numbered_eq, String.toList_ofList, h,
    hsplit other, hsplit rest,
    ← Statement.numberedFrom_take, ← Text.length_lines_of_newline, List.take_left,
    Statement.numberedFrom_append]

/-- A run is settled by the outcome of its lines. -/
theorem ofSource_congr (h : body text sink = body source sink) :
    ofSource text sink = ofSource source sink := by
  unfold body at h
  simp only [ofSource, h]

/-- Lines that fail for another reason than the output fail at the line that is blamed. The lines
in front of it have written all that is written, and nothing behind it matters. -/
theorem exists_failing_line (h : (body source sink).failure? = some failure)
    (hne : failure ≠ .output) :
    ∃ line, failure.line? = some line ∧ 1 ≤ line ∧ line ≤ (Text.lines source.toList).length ∧
      ((Machine.start sink).runStatements
        ((Statement.numbered source).take (line - 1))).failure? = none ∧
      ((Machine.start sink).runStatements
        ((Statement.numbered source).take (line - 1))).machine.sink =
          (body source sink).machine.sink ∧
      ∀ later, (Machine.start sink).runStatements
        ((Statement.numbered source).take line ++ later) = body source sink := by
  obtain ⟨before, line, statement, later, hsource, hbefore, hfailing⟩ :=
    Machine.exists_of_failure h
  obtain ⟨hline, htake⟩ := numbered_cut_of_eq_append hsource
  rw [numbered_cut] at htake
  have hlength : (Statement.numbered source).length = (Text.lines source.toList).length := by
    rw [Statement.numbered_eq, Statement.length_numberedFrom]
  have hbody : body source sink =
      ((Machine.start sink).runStatements before).andThen fun m => m.step line statement := by
    unfold body Machine.runSource
    rw [hsource]
    exact Machine.runStatements_of_failure hbefore hfailing later
  refine ⟨line, Machine.line?_of_step hfailing hne, ?_, ?_, ?_⟩
  · omega
  · rw [← hlength, hsource, List.length_append, List.length_cons]
    omega
  · have htake' : (Statement.numbered source).take line = before ++ [(line, statement)] := by
      rw [hsource, hline, List.append_cons, List.take_left' (by simp [Nat.add_comm])]
    rw [htake, htake', hbody]
    refine ⟨hbefore, ?_, ?_⟩
    · rw [Outcome.andThen_of_success _ hbefore]
      exact (Machine.sink_of_step hfailing hne).symm
    · intro others
      rw [List.append_assoc]
      exact Machine.runStatements_of_failure hbefore hfailing others

/-- Lines that succeed have succeeded, and written a first part, behind every one of them. -/
theorem body_cut_of_success (h : (body source sink).failure? = none) (count : Nat) :
    (body (cut count source) sink).failure? = none ∧
      (body (cut count source) sink).machine.sink.GrowsTo (body source sink).machine.sink := by
  have hparts : body source sink = (body (cut count source) sink).andThen fun m =>
      m.runStatements ((Statement.numbered source).drop count) := by
    unfold body Machine.runSource
    rw [numbered_cut, ← Machine.runStatements_append, List.take_append_drop]
  rw [hparts] at h ⊢
  refine ⟨?_, Machine.growsTo_andThen _ fun m => Machine.growsTo_runStatements m _⟩
  cases hfirst : (body (cut count source) sink).failure? with
  | none => rfl
  | some failure =>
      rw [Outcome.andThen_of_failure hfirst, hfirst] at h
      cases h

/-- An output that takes everything is never to blame for a line. -/
theorem ne_output_of_body (h : (body source Sink.unbounded).failure? = some failure) :
    failure ≠ .output := by
  obtain ⟨before, line, statement, -, -, -, hfailing⟩ := Machine.exists_of_failure h
  rintro rfl
  exact Machine.step_ne_output (Machine.growsTo_runStatements _ before).limit_eq line statement
    hfailing

/-- The line that a run blames, if there is one. -/
def blamedLine? (run : Run) : Option Nat :=
  run.failure?.bind Failure.line?

/-- A program that fails on an output that takes everything blames one of its lines. Cut in front
of this line it succeeds and prints the same; cut behind it, or continued in any other way, it runs
exactly as it did. A program that succeeds succeeds wherever it is cut, and prints a first part of
what it prints as a whole. -/
theorem stops_at_first_bad_line (source : String) :
    let run := ofSource source Sink.unbounded
    (run.status = 1 → ∃ line, run.blamedLine? = some line ∧
      1 ≤ line ∧ line ≤ (Text.lines source.toList).length ∧
      (ofSource (cut (line - 1) source) Sink.unbounded).status = 0 ∧
      (ofSource (cut (line - 1) source) Sink.unbounded).output = run.output ∧
      ofSource (cut line source) Sink.unbounded = run ∧
      ∀ first rest other : List Char, source.toList = first ++ '\n' :: rest →
        first.count '\n' = line - 1 →
        ofSource (String.ofList (first ++ '\n' :: other)) Sink.unbounded = run) ∧
    (run.status = 0 → ∀ count,
      (ofSource (cut count source) Sink.unbounded).status = 0 ∧
      (ofSource (cut count source) Sink.unbounded).output.toList <+: run.output.toList) := by
  dsimp only
  refine ⟨?_, ?_⟩
  · intro hstatus
    obtain ⟨failure, hfailure⟩ := status_eq_one_iff.mp hstatus
    have hbody := hfailure
    rw [failure?_ofSource_unbounded] at hbody
    obtain ⟨line, hline, hpos, hle, hbefore, hsink, hsame⟩ :=
      exists_failing_line hbody (ne_output_of_body hbody)
    refine ⟨line, ?_, hpos, hle, ?_, ?_, ?_, ?_⟩
    · rw [blamedLine?, hfailure]
      exact hline
    · rw [status_eq_zero_iff, failure?_ofSource_unbounded, body, Machine.runSource, numbered_cut]
      exact hbefore
    · rw [output_ofSource, output_ofSource, body, Machine.runSource, numbered_cut, hsink]
    · apply ofSource_congr
      rw [body, Machine.runSource, numbered_cut, ← hsame [], List.append_nil]
    · intro first rest other hsource hcount
      obtain ⟨later, hlater⟩ := numbered_append_newline hsource other
      apply ofSource_congr
      rw [body, Machine.runSource, hlater, hcount, Nat.sub_add_cancel hpos]
      exact hsame later
  · intro hstatus count
    rw [status_eq_zero_iff, failure?_ofSource_unbounded] at hstatus
    obtain ⟨hcut, hgrows⟩ := body_cut_of_success hstatus count
    refine ⟨?_, ?_⟩
    · rw [status_eq_zero_iff, failure?_ofSource_unbounded]
      exact hcut
    · rw [output_ofSource, output_ofSource]
      exact hgrows.isPrefix

example : (ofSource "push 1\n\npop\npop\npint" Sink.unbounded).blamedLine? = some 4 := by
  decide +kernel

end StackQueue.Run
