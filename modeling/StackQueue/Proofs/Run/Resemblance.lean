import Mathlib.Data.List.Forall2
import StackQueue.Proofs.Machine.Depth
import StackQueue.Proofs.Run.FirstFailure

/-!
# Programs that differ in their values

Two programs with the same words are compared line by line, whatever their values and their modes
are. They have the same number of values behind every line that both reach, and they fail in the
same way on the same line, unless one of them has failed before because of a value.
-/

namespace StackQueue

theorem Failure.valueLine?_eq_some_iff {failure : Failure} {line : Nat} :
    failure.valueLine? = some line ↔
      failure = .divisionByZero line ∨ failure = .pcharRange line := by
  cases failure <;> simp [valueLine?]

namespace Statement

/-- Two statements dispatch no word, or dispatch the same one. If it is `push`, both have a value
to insert. -/
def Resembles (statement other : Statement) : Prop :=
  statement.word? = other.word? ∧ statement.Accepted ∧ other.Accepted

instance : DecidablePred Accepted :=
  fun statement => inferInstanceAs
    (Decidable (statement.word? = some Opcode.push.name → statement.value?.isSome))

instance : DecidableRel Resembles :=
  fun statement other => inferInstanceAs
    (Decidable (statement.word? = other.word? ∧ statement.Accepted ∧ other.Accepted))

theorem of_forall₂_resembles {texts others : List (List Char)}
    (h : List.Forall₂ (fun text other => (ofLine text).Resembles (ofLine other)) texts others) :
    (texts.map fun text => (ofLine text).word?) = (others.map fun text => (ofLine text).word?) ∧
      (∀ text ∈ texts, (ofLine text).Accepted) ∧ ∀ text ∈ others, (ofLine text).Accepted := by
  induction h with
  | nil => simp
  | cons hline _ ih =>
      obtain ⟨hword, haccepted, haccepted'⟩ := hline
      obtain ⟨hwords, htexts, hothers⟩ := ih
      refine ⟨?_, List.forall_mem_cons.mpr ⟨haccepted, htexts⟩,
        List.forall_mem_cons.mpr ⟨haccepted', hothers⟩⟩
      rw [List.map_cons, List.map_cons, hword, hwords]

end Statement

namespace Run

/-- Two programs have the same number of lines, and each line resembles its counterpart. -/
def Resemble (first second : String) : Prop :=
  List.Forall₂ (fun text other => (Statement.ofLine text).Resembles (Statement.ofLine other))
    (Text.lines first.toList) (Text.lines second.toList)

instance : DecidableRel Resemble :=
  fun _ _ => inferInstanceAs (Decidable (List.Forall₂ _ _ _))

/-- What the lines of a program dispatch. -/
def words (source : String) : List (Option String) :=
  (Text.lines source.toList).map fun text => (Statement.ofLine text).word?

variable {source first second : String}

/-- Whatever its lines insert, a program keeps to the count of its words. -/
theorem keepsTo_body
    (h : ∀ text ∈ Text.lines source.toList, (Statement.ofLine text).Accepted) :
    (body source Sink.unbounded).KeepsTo (Depth.run 0 1 (words source)) := by
  rw [body, Machine.runSource, Statement.numbered_eq]
  exact Machine.keepsTo_runStatements (Reference.shows_start false) 1 h

/-- Programs that resemble each other keep to one count. -/
theorem Resemble.keepsTo (h : Resemble first second) :
    (body first Sink.unbounded).KeepsTo (Depth.run 0 1 (words first)) ∧
      (body second Sink.unbounded).KeepsTo (Depth.run 0 1 (words first)) := by
  obtain ⟨hwords, hfirst, hsecond⟩ := Statement.of_forall₂_resembles h
  refine ⟨keepsTo_body hfirst, ?_⟩
  rw [words, hwords]
  exact keepsTo_body hsecond

theorem Resemble.cut (h : Resemble first second) (count : Nat) :
    Resemble (cut count first) (cut count second) := by
  unfold Resemble Run.cut
  rw [String.toList_ofList, String.toList_ofList, Text.lines_firstLines, Text.lines_firstLines]
  exact List.forall₂_take count h

/-- Lines that succeed have succeeded behind every one of them. -/
theorem failure?_cut_of_le {count line : Nat} (hle : line ≤ count) {sink : Sink}
    (h : (body (cut count source) sink).failure? = none) :
    (body (cut line source) sink).failure? = none := by
  have hcut := (body_cut_of_success h line).1
  unfold body Machine.runSource at hcut ⊢
  rw [numbered_cut] at hcut ⊢
  rw [numbered_cut, List.take_take, Nat.min_eq_left hle] at hcut
  exact hcut

/-- A run that has failed at a line because of a value: a divisor is zero, or a value is no
character. -/
def FailsForValue (run : Run) (line : Nat) : Prop :=
  run.failure? = some (.divisionByZero line) ∨ run.failure? = some (.pcharRange line)

theorem failsForValue_of_body {failure : Failure} {line : Nat}
    (h : (body source Sink.unbounded).failure? = some failure)
    (hvalue : failure.valueLine? = some line) :
    (ofSource source Sink.unbounded).FailsForValue line := by
  rw [← failure?_ofSource_unbounded] at h
  rcases Failure.valueLine?_eq_some_iff.mp hvalue with rfl | rfl
  · exact .inl h
  · exact .inr h

/-- The number of values in front of a line and behind it, and every failure that is not due to a
value, do not depend on the values that a program inserts, nor on its modes, blank lines and
comments. -/
theorem failures_ignore_values (h : Resemble first second) :
    (∀ count, (body (cut count first) Sink.unbounded).failure? = none →
      (body (cut count second) Sink.unbounded).failure? = none →
      ∀ line ≤ count, (body (cut line first) Sink.unbounded).machine.sequence.length =
        (body (cut line second) Sink.unbounded).machine.sequence.length) ∧
    (∀ failure, (ofSource first Sink.unbounded).failure? = some failure →
      failure.valueLine? = none →
      ∃ line, failure.line? = some line ∧
        ((ofSource second Sink.unbounded).failure? = some failure ∨
          ∃ earlier < line, (ofSource second Sink.unbounded).FailsForValue earlier)) ∧
    ((ofSource first Sink.unbounded).failure? = none →
      (ofSource second Sink.unbounded).failure? = none ∨
        ∃ line, (ofSource second Sink.unbounded).FailsForValue line) := by
  obtain ⟨hfirst, hsecond⟩ := h.keepsTo
  refine ⟨?_, ?_, ?_⟩
  · intro count hsuccess hsuccess' line hle
    obtain ⟨hcut, hcut'⟩ := (h.cut line).keepsTo
    have hlength := hcut.eq_of_success (failure?_cut_of_le hle hsuccess)
    have hlength' := hcut'.eq_of_success (failure?_cut_of_le hle hsuccess')
    exact Except.ok.inj (hlength.symm.trans hlength')
  · intro failure hfailure hvalue
    rw [failure?_ofSource_unbounded] at hfailure
    have hcount := hfirst.eq_of_failure hfailure hvalue
    obtain ⟨line, hline, -⟩ := Depth.exists_line?_of_run hcount
    rw [hcount] at hsecond
    refine ⟨line, hline, ?_⟩
    obtain hsame | ⟨cause, earlier, hlt, hcause, hearlier⟩ := hsecond.failure?_of_error hline
    · exact .inl ((failure?_ofSource_unbounded second).trans hsame)
    · exact .inr ⟨earlier, hlt, failsForValue_of_body hcause hearlier⟩
  · intro hsuccess
    rw [failure?_ofSource_unbounded] at hsuccess
    rw [hfirst.eq_of_success hsuccess] at hsecond
    obtain hsame | ⟨cause, line, hcause, hline⟩ := hsecond.failure?_of_ok
    · exact .inl ((failure?_ofSource_unbounded second).trans hsame)
    · exact .inr ⟨line, failsForValue_of_body hcause hline⟩

/-- A divisor that is zero stops the second program in front of the line on which the first one
misses a value. -/
theorem failures_ignore_values_div :
    let first := "push 1\nqueue\npush 2\ndiv\n\npop\npop"
    let second := "push 5\n# note\npush 0\ndiv\nstack\npop\npop"
    Resemble first second ∧
      (body (cut 3 second) Sink.unbounded).machine.sequence.length = 2 ∧
      (ofSource first Sink.unbounded).failure? = some (.emptyPop 7) ∧
      ∃ earlier < 7, (ofSource second Sink.unbounded).FailsForValue earlier := by
  intro first second
  have hresemble : Resemble first second := by decide +kernel
  have hfailure : (ofSource first Sink.unbounded).failure? = some (.emptyPop 7) := by
    decide +kernel
  obtain ⟨hlength, hfailures, -⟩ := failures_ignore_values hresemble
  refine ⟨hresemble, ?_, hfailure, ?_⟩
  · rw [← hlength 3 (by decide +kernel) (by decide +kernel) 3 (Nat.le_refl 3)]
    decide +kernel
  · obtain ⟨line, hline, hsame | hearlier⟩ := hfailures (.emptyPop 7) hfailure rfl
    · have hother : (ofSource second Sink.unbounded).failure? ≠ some (.emptyPop 7) := by
        decide +kernel
      exact absurd hsame hother
    · obtain rfl := Option.some.inj hline
      exact hearlier

end Run

end StackQueue
