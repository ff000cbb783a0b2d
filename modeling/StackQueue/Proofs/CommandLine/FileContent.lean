import StackQueue.CommandLine.Response
import StackQueue.Proofs.Instruction.Labels
import StackQueue.Proofs.Run.Normalisation
import StackQueue.Proofs.Run.Resemblance
import StackQueue.Proofs.Text.OctetLines

/-!
# Files that are no text

A file is any list of octets, and its lines can be counted before it is decoded. Decoding moves no
boundary between lines or tokens, so a diagnostic shows the number of the line at which the file
fails, counted in its octets. Octets behind the first two tokens of a line or in a comment do not
change the answer.
-/

namespace StackQueue

namespace Statement

variable {line other : List Char}

theorem ofTokens_take (words : List String) : ofTokens (words.take 2) = ofTokens words := by
  match words with
  | [] => rfl
  | [_] => rfl
  | _ :: _ :: _ => rfl

/-- Only the first two tokens of a line are read. -/
theorem ofLine_eq_of_take (h : (Text.tokens line).take 2 = (Text.tokens other).take 2) :
    ofLine line = ofLine other := by
  rw [ofLine, ofLine, ← ofTokens_take, ← List.map_take, h, List.map_take, ofTokens_take]

/-- A line whose first token starts with `#` is as good as a blank one. -/
theorem normal_ofLine_of_comment {token : List Char} (h : (Text.tokens line).head? = some token)
    (hcomment : token.head? = some '#') : (ofLine line).normal = .blank := by
  obtain ⟨others, htokens⟩ := List.head?_eq_some_iff.mp h
  have hword : Instruction.isComment (String.ofList token) = true := by
    rw [Instruction.isComment, String.toList_ofList, hcomment]
    rfl
  have hmode : Mode.ofName? (String.ofList token) = none := by
    rw [Option.eq_none_iff_forall_ne_some]
    intro selected hselected
    have hname := congrArg String.toList (Mode.ofName?_eq_some_iff.mp hselected)
    rw [String.toList_ofList] at hname
    rw [← hname] at hcomment
    cases selected <;> exact absurd hcomment (by decide)
  rw [ofLine, htokens, List.map_cons, ofTokens, hmode]
  exact normal_of_comment _ hword

end Statement

namespace Octets

open Utf8

variable {content other line : Octets}

/-- A line whose first token starts with the octet of `#`. -/
def OpensComment (line : Octets) : Prop :=
  ((tokens line).head?.bind List.head?) = some 0x23

/-- Two lines have the same first two tokens, or both are comments. -/
def SameStart (line other : Octets) : Prop :=
  (tokens line).take 2 = (tokens other).take 2 ∨ OpensComment line ∧ OpensComment other

instance : DecidablePred OpensComment :=
  fun line => inferInstanceAs (Decidable ((tokens line).head?.bind List.head? = some 0x23))

instance : DecidableRel SameStart :=
  fun line other => inferInstanceAs (Decidable
    ((tokens line).take 2 = (tokens other).take 2 ∨ OpensComment line ∧ OpensComment other))

theorem normal_of_opensComment (h : OpensComment line) :
    (Statement.ofLine (decode line)).normal = .blank := by
  obtain ⟨token, htoken, hhead⟩ := Option.bind_eq_some_iff.mp h
  obtain ⟨rest, rfl⟩ := List.head?_eq_some_iff.mp hhead
  have hfirst : (Text.tokens (decode line)).head? = some (decode (0x23 :: rest)) := by
    rw [← map_decode_tokens, List.head?_map, htoken, Option.map_some]
  apply Statement.normal_ofLine_of_comment hfirst
  rw [← List.nil_append (0x23 :: rest), decode_append_cons (by decide) [] rest]
  rfl

theorem SameStart.normal_eq (h : SameStart line other) :
    (Statement.ofLine (decode line)).normal = (Statement.ofLine (decode other)).normal := by
  rcases h with h | ⟨hline, hother⟩
  · rw [Statement.ofLine_eq_of_take]
    rw [← map_decode_tokens, ← map_decode_tokens, ← List.map_take, h, List.map_take]
  · rw [normal_of_opensComment hline, normal_of_opensComment hother]

/-- Files whose lines start in the same way hold the same normalised program. -/
theorem normalised_text_eq (h : List.Forall₂ SameStart (lines content) (lines other)) :
    Run.normalised (Utf8.text content) = Run.normalised (Utf8.text other) := by
  rw [Run.normalised, Run.normalised, Utf8.text, Utf8.text, String.toList_ofList,
    String.toList_ofList, ← map_decode_lines, ← map_decode_lines, List.map_map, List.map_map]
  congr 1
  rw [← List.forall₂_eq_eq_eq, List.forall₂_map_left_iff, List.forall₂_map_right_iff]
  exact h.imp fun _ _ => SameStart.normal_eq

/-- A file is cut where its text is cut. -/
theorem text_firstLines (count : Nat) (content : Octets) :
    Utf8.text (firstLines count content) = Run.cut count (Utf8.text content) := by
  rw [Utf8.text, Utf8.text, Run.cut, String.toList_ofList, decode_firstLines]

end Octets

namespace Run

variable {source other : String} {failure : Failure}

/-- Programs with the same normal form give the same answer. -/
theorem answer_eq_of_normalised_eq (h : normalised source = normalised other) (sink : Sink) :
    (ofSource source sink).answer = (ofSource other sink).answer := by
  have hbody := (body_normalised source sink).symm.trans
    ((congrArg (body · sink) h).trans (body_normalised other sink))
  have hmachine := congrArg Outcome.machine hbody
  have hfailure := congrArg Outcome.failure? hbody
  simp only [Outcome.retell, Option.map_id, id] at hmachine hfailure
  rw [Unobserved.answer_eq_report, Unobserved.answer_eq_report, hmachine, hfailure]

/-- A program that is cut in front of the blamed line succeeds, and one that is cut anywhere behind
this line runs as if it was not cut. -/
theorem exists_turning_line (h : (body source Sink.unbounded).failure? = some failure) :
    ∃ line, failure.line? = some line ∧ 1 ≤ line ∧ line ≤ (Text.lines source.toList).length ∧
      (∀ count < line, (body (cut count source) Sink.unbounded).failure? = none) ∧
      ∀ count, line ≤ count →
        body (cut count source) Sink.unbounded = body source Sink.unbounded := by
  obtain ⟨line, hline, hpos, hle, hbefore, -, hsame⟩ :=
    exists_failing_line h (ne_output_of_body h)
  refine ⟨line, hline, hpos, hle, ?_, ?_⟩
  · intro count hcount
    have hcut : (body (cut (line - 1) source) Sink.unbounded).failure? = none := by
      rw [body, Machine.runSource, numbered_cut]
      exact hbefore
    exact failure?_cut_of_le (Nat.le_sub_one_of_lt hcount) hcut
  · intro count hcount
    rw [body, Machine.runSource, numbered_cut, ← Nat.add_sub_cancel' hcount, List.take_add]
    exact hsame _

end Run

namespace Failure

/-- The line number that a diagnostic starts with. -/
def shownLine? (diagnostic : String) : Option Nat :=
  match diagnostic.toList with
  | 'L' :: rest => Decimal.natural? (String.ofList (rest.takeWhile (· ≠ ':')))
  | _ => none

/-- The line number is read back from a diagnostic that is put in front of a complaint. -/
theorem shownLine?_atLine (line : Nat) (complaint : String) :
    shownLine? (atLine line complaint ++ "\n") = some line := by
  have hdigits (c : Char) (hc : c ∈ (Decimal.text line).toList) : decide (c ≠ ':') = true := by
    rw [Decimal.toList_text] at hc
    rw [decide_eq_true_eq]
    rintro rfl
    rcases Decimal.isDigit_or_minus_of_mem_render hc with h | h <;> exact absurd h (by decide)
  have hlist : (atLine line complaint ++ "\n").toList =
      'L' :: ((Decimal.text line).toList ++ ':' :: (" " ++ complaint ++ "\n").toList) := by
    simp [atLine]
  rw [shownLine?, hlist]
  simp only
  rw [List.takeWhile_append_of_pos hdigits, List.takeWhile_cons_of_neg (by decide),
    List.append_nil, String.ofList_toList, Decimal.natural?_text]

/-- A failure that blames a line shows it, unless a divisor is zero. -/
theorem shownLine?_of_line? {failure : Failure} {line : Nat} (h : failure.line? = some line) :
    shownLine? failure.diagnostic = some line ∨
      failure.diagnostic = (divisionByZero line).diagnostic := by
  cases failure <;> cases h
  case divisionByZero => exact .inr rfl
  all_goals exact .inl (shownLine?_atLine _ _)

end Failure

namespace Request

/-- The answer of a command line that names a file with this content. -/
def answer (path content : Octets) : Response :=
  (run path).respond fun _ => some content

/-- A line is the one at which a file fails: cut in front of it the file succeeds, and cut anywhere
behind it the file is answered as if it was not cut. -/
structure FailsAt (path content : Octets) (line : Nat) : Prop where
  one_le : 1 ≤ line
  le_length : line ≤ (Octets.lines content).length
  status_before : ∀ count < line, (answer path (Octets.firstLines count content)).status = 0
  answer_behind : ∀ count, line ≤ count →
    answer path (Octets.firstLines count content) = answer path content

variable {content other : Octets}

theorem answer_eq (path content : Octets) :
    answer path content = .ofRun (Run.ofSource (Utf8.text content) Sink.unbounded) := rfl

theorem answer_firstLines (path content : Octets) (count : Nat) :
    answer path (Octets.firstLines count content) =
      .ofRun (Run.ofSource (Run.cut count (Utf8.text content)) Sink.unbounded) := by
  rw [answer_eq, Octets.text_firstLines]

theorem failsAt_of_body {failure : Failure} (path : Octets)
    (h : (Run.body (Utf8.text content) Sink.unbounded).failure? = some failure) :
    ∃ line, failure.line? = some line ∧ FailsAt path content line := by
  obtain ⟨line, hline, hpos, hle, hbefore, hbehind⟩ := Run.exists_turning_line h
  refine ⟨line, hline, hpos, ?_, ?_, ?_⟩
  · rwa [Utf8.text, String.toList_ofList, ← Octets.map_decode_lines, List.length_map] at hle
  · intro count hcount
    rw [answer_firstLines]
    apply Run.status_eq_zero_iff.mpr
    rw [Run.failure?_ofSource_unbounded]
    exact hbefore count hcount
  · intro count hcount
    rw [answer_firstLines, answer_eq, Run.ofSource_congr (hbehind count hcount)]

/-- Files whose lines start in the same way are answered alike. -/
theorem answer_congr (path : Octets)
    (h : List.Forall₂ Octets.SameStart (Octets.lines content) (Octets.lines other)) :
    answer path other = answer path content := by
  have hanswer := Run.answer_eq_of_normalised_eq (Octets.normalised_text_eq h) Sink.unbounded
  simp only [Run.answer, Answer.mk.injEq] at hanswer
  obtain ⟨hstatus, houtput, hdiagnostic⟩ := hanswer
  rw [answer_eq, answer_eq, Response.ofRun, Response.ofRun, hstatus, houtput, hdiagnostic]

/-- Decoding replaces the maximal ill-formed pieces of a file, and the decoded text has the tokens
of the octets, line by line. So the number in a diagnostic is that of the failing line of octets,
and a file whose lines start with the same two tokens, or are comments in the same places, is
answered in the same way. -/
theorem answers_count_octet_lines (path content : Octets) :
    (∀ text, Utf8.Decodes content text ↔ text = Utf8.decode content) ∧
    (Octets.lines content).map (fun line => (Octets.tokens line).map Utf8.decode) =
      (Text.lines (Utf8.decode content)).map Text.tokens ∧
    ((answer path content).status = 0 ∧ (answer path content).diagnostic = "" ∨
      ∃ line, FailsAt path content line ∧ (answer path content).status = 1 ∧
        (Failure.shownLine? (answer path content).diagnostic = some line ∨
          (answer path content).diagnostic = "Division by zero\n")) ∧
    ∀ other, List.Forall₂ Octets.SameStart (Octets.lines content) (Octets.lines other) →
      answer path other = answer path content := by
  refine ⟨fun _ => Utf8.decodes_iff, Octets.map_decode_tokens_lines content, ?_,
    fun _ => answer_congr path⟩
  have hfailure := Run.failure?_ofSource_unbounded (Utf8.text content)
  cases hbody : (Run.body (Utf8.text content) Sink.unbounded).failure? with
  | none =>
      rw [hbody] at hfailure
      left
      rw [answer_eq, Response.ofRun, Run.status, Run.diagnostic, hfailure]
      exact ⟨rfl, rfl⟩
  | some failure =>
      rw [hbody] at hfailure
      obtain ⟨line, hline, hfails⟩ := failsAt_of_body path hbody
      refine .inr ⟨line, hfails, ?_⟩
      rw [answer_eq, Response.ofRun, Run.status, Run.diagnostic, hfailure]
      exact ⟨rfl, Failure.shownLine?_of_line? hline⟩

-- What is no text stands behind an operand and in a comment.
example :
    let content := Utf8.octets "push 1 " ++ 0xFF :: Utf8.octets "\n#" ++ [0xE2]
    List.Forall₂ Octets.SameStart (Octets.lines content)
      (Octets.lines (Utf8.octets "push\t1\n #two words")) := by decide +kernel

-- The newline ends both a comment and the character that was begun in it.
example : Failure.shownLine? (answer [] [0x23, 0xE2, 0x82, 0x0A, 0xF0, 0x20, 0xFF]).diagnostic =
    some 2 := by decide +kernel

end Request

end StackQueue
