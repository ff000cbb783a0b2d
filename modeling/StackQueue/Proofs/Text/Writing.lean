import StackQueue.Proofs.Text.Cutting
import StackQueue.Text.Decimal

/-!
# Writing statements down

A statement is written as its first word, with its operand behind one space if it has one, and a
program as its statements with a newline behind each. Every statement that some line holds is read
back from the line that is written for it.
-/

namespace StackQueue

namespace Text

/-- A word that can be a token of a line. -/
def IsToken (word : String) : Prop :=
  word.toList ≠ [] ∧ ∀ c ∈ word.toList, isSeparator c = false

-- The characters of the word decide. There are too many characters to try all of them.
instance : DecidablePred IsToken :=
  fun word => decidable_of_iff
    (word.toList ≠ [] ∧ (word.toList.all fun c => !isSeparator c) = true)
    (by simp [IsToken])

variable {word : String}

theorem isToken_of_mem_tokens {text token : List Char} (h : token ∈ tokens text) :
    IsToken (String.ofList token) := by
  rw [IsToken, String.toList_ofList]
  exact ⟨ne_nil_of_mem_tokens h, fun _ hc => isSeparator_eq_false_of_mem_tokens h hc⟩

/-- A token is read back from a line that holds nothing else. -/
theorem IsToken.tokens_eq (h : IsToken word) : tokens word.toList = [word.toList] :=
  tokens_eq_singleton h.1 h.2

/-- Two tokens are read back from a line that holds them with a space between them. -/
theorem IsToken.tokens_append_space (h : IsToken word) {other : String} (hother : IsToken other) :
    tokens (word.toList ++ ' ' :: other.toList) = [word.toList, other.toList] := by
  rw [tokens_append_of_isSeparator h.1 h.2 (by decide), hother.tokens_eq]

theorem IsToken.newline_not_mem (h : IsToken word) : '\n' ∉ word.toList := by
  intro hmem
  exact absurd (h.2 '\n' hmem) (by decide)

/-- Lines behind each of which there is a newline are read back. -/
theorem lines_flatMap_newline {lines : List (List Char)} (h : ∀ line ∈ lines, '\n' ∉ line) :
    Text.lines (lines.flatMap fun line => line ++ ['\n']) = lines := by
  induction lines with
  | nil => rfl
  | cons line lines ih =>
      obtain ⟨hline, hlines⟩ := List.forall_mem_cons.mp h
      rw [List.flatMap_cons, List.append_assoc, List.singleton_append,
        lines_append_newline _ _ hline, ih hlines]

end Text

namespace Decimal

/-- The decimal form of an integer is a token. -/
theorem isToken_text (n : Int) : Text.IsToken (text n) := by
  rw [Text.IsToken, toList_text]
  refine ⟨?_, ?_⟩
  · cases n with
    | ofNat n => exact Nat.toDigits_ne_nil
    | negSucc n => exact List.cons_ne_nil _ _
  · intro c hc
    rcases isDigit_or_minus_of_mem_render hc with hdigit | rfl
    · simp only [Text.isSeparator, Bool.or_eq_false_iff, decide_eq_false_iff_not]
      refine ⟨⟨⟨⟨?_, ?_⟩, ?_⟩, ?_⟩, ?_⟩ <;>
      · rintro rfl
        exact absurd hdigit (by decide)
    · decide

end Decimal

theorem Mode.isToken_name (mode : Mode) : Text.IsToken mode.name := by
  cases mode <;> decide

namespace Statement

variable {statement : Statement}

/-- A statement that some line holds. -/
def Readable : Statement → Prop
  | .blank | .mode _ => True
  | .op word operand? =>
      Text.IsToken word ∧ Mode.ofName? word = none ∧ ∀ operand ∈ operand?, Text.IsToken operand

/-- What a line holds is readable. -/
theorem readable_ofLine (text : List Char) : (ofLine text).Readable := by
  have htoken (token : List Char) (h : token ∈ Text.tokens text) :
      Text.IsToken (String.ofList token) := Text.isToken_of_mem_tokens h
  rw [ofLine]
  cases htokens : Text.tokens text with
  | nil => exact trivial
  | cons word others =>
      rw [htokens] at htoken
      rw [List.map_cons, ofTokens]
      split
      · exact trivial
      · next hmode =>
          refine ⟨htoken word List.mem_cons_self, hmode, ?_⟩
          intro operand hoperand
          obtain ⟨token, hmem, rfl⟩ :=
            List.mem_map.mp (List.mem_of_head? (Option.mem_def.mp hoperand))
          exact htoken token (List.mem_cons_of_mem word hmem)

/-- The line that is written for a statement. -/
def written : Statement → List Char
  | .blank => []
  | .mode selected => selected.name.toList
  | .op word none => word.toList
  | .op word (some operand) => word.toList ++ ' ' :: operand.toList

theorem ofLine_of_tokens_eq {text : List Char} {words : List String}
    (h : Text.tokens text = words.map String.toList) : ofLine text = ofTokens words := by
  rw [ofLine, h, List.map_map]
  simp only [Function.comp_def, String.ofList_toList, List.map_id']

/-- A readable statement is read back from the line that is written for it. -/
theorem ofLine_written (h : statement.Readable) : ofLine statement.written = statement := by
  cases statement with
  | blank => rfl
  | mode selected =>
      have htokens := selected.isToken_name.tokens_eq
      have hname : Mode.ofName? selected.name = some selected :=
        Mode.ofName?_eq_some_iff.mpr rfl
      calc ofLine selected.name.toList = ofTokens [selected.name] := ofLine_of_tokens_eq htokens
        _ = .mode selected := by simp only [ofTokens, hname]
  | op word operand? =>
      obtain ⟨hword, hmode, hoperand⟩ := h
      cases operand? with
      | none =>
          calc ofLine word.toList = ofTokens [word] := ofLine_of_tokens_eq hword.tokens_eq
            _ = .op word none := by simp only [ofTokens, hmode, List.head?_nil]
      | some operand =>
          have htokens := hword.tokens_append_space (hoperand operand rfl)
          calc ofLine (word.toList ++ ' ' :: operand.toList) = ofTokens [word, operand] :=
              ofLine_of_tokens_eq htokens
            _ = .op word (some operand) := by simp only [ofTokens, hmode, List.head?_cons]

/-- A readable statement is written on one line. -/
theorem newline_not_mem_written (h : statement.Readable) : '\n' ∉ statement.written := by
  cases statement with
  | blank => exact List.not_mem_nil
  | mode selected => exact selected.isToken_name.newline_not_mem
  | op word operand? =>
      obtain ⟨hword, -, hoperand⟩ := h
      cases operand? with
      | none => exact hword.newline_not_mem
      | some operand =>
          intro hmem
          rcases List.mem_append.mp hmem with hmem | hmem
          · exact hword.newline_not_mem hmem
          · rcases List.mem_cons.mp hmem with hspace | hmem
            · exact absurd hspace (by decide)
            · exact (hoperand operand rfl).newline_not_mem hmem

/-- The text of a program: every statement on a line of its own. -/
def program (statements : List Statement) : String :=
  String.ofList ((statements.map written).flatMap fun line => line ++ ['\n'])

variable {statements : List Statement}

theorem lines_program (h : ∀ statement ∈ statements, statement.Readable) :
    Text.lines (program statements).toList = statements.map written := by
  rw [program, String.toList_ofList]
  apply Text.lines_flatMap_newline
  intro line hline
  obtain ⟨statement, hmem, rfl⟩ := List.mem_map.mp hline
  exact newline_not_mem_written (h statement hmem)

theorem numberedFrom_map_written (h : ∀ statement ∈ statements, statement.Readable)
    (number : Nat) :
    numberedFrom number (statements.map written) =
      (statements.zipIdx number).map fun entry => (entry.2, entry.1) := by
  induction statements generalizing number with
  | nil => rfl
  | cons statement statements ih =>
      obtain ⟨hstatement, hstatements⟩ := List.forall_mem_cons.mp h
      rw [List.map_cons, numberedFrom_cons, ofLine_written hstatement, ih hstatements,
        List.zipIdx_cons, List.map_cons]

/-- The statements of a written program are those that were written. -/
theorem numbered_program (h : ∀ statement ∈ statements, statement.Readable) :
    numbered (program statements) =
      (statements.zipIdx 1).map fun entry => (entry.2, entry.1) := by
  rw [numbered_eq, lines_program h, numberedFrom_map_written h]

example : program [.op "push" (some "-7"), .blank, .mode .queue, .op "rotl" none] =
    "push -7\n\nqueue\nrotl\n" := by decide

end Statement

end StackQueue
