/-!
# Lines of a text

Every newline ends a line, and what follows the last newline is a line only if it is not empty. A
carriage return ends no line.
-/

namespace StackQueue.Text

/-- Put a character in front of the lines of the text that follows it. -/
def consLine (c : Char) (rest : List (List Char)) : List (List Char) :=
  if c = '\n' then
    [] :: rest
  else
    match rest with
    | [] => [[c]]
    | line :: others => (c :: line) :: others

/-- The lines of a text, in order, without their newlines. -/
def lines (text : List Char) : List (List Char) :=
  text.foldr consLine []

/-- The empty text has no line. -/
@[simp] theorem lines_nil : lines [] = [] := rfl

/-- The lines of a text are found from its first character and the lines of the rest. -/
theorem lines_cons (c : Char) (text : List Char) :
    lines (c :: text) = consLine c (lines text) := rfl

/-- A newline in front is an empty line in front. -/
@[simp] theorem lines_newline_cons (text : List Char) :
    lines ('\n' :: text) = [] :: lines text := rfl

/-- A first line that is ended by a newline comes first, whatever follows. -/
theorem lines_append_newline (line text : List Char) (h : '\n' ∉ line) :
    lines (line ++ '\n' :: text) = line :: lines text := by
  induction line with
  | nil => rfl
  | cons c line ih =>
      have hc : c ≠ '\n' := fun hc => h (by simp [hc])
      have hline : '\n' ∉ line := fun hmem => h (by simp [hmem])
      rw [List.cons_append, lines_cons, ih hline]
      simp [consLine, hc]

/-- A text without newline is one line, unless it is empty. -/
theorem lines_of_no_newline (line : List Char) (hne : line ≠ []) (h : '\n' ∉ line) :
    lines line = [line] := by
  induction line with
  | nil => exact absurd rfl hne
  | cons c line ih =>
      have hc : c ≠ '\n' := fun hc => h (by simp [hc])
      have hline : '\n' ∉ line := fun hmem => h (by simp [hmem])
      cases line with
      | nil => simp [lines_cons, consLine, hc]
      | cons d line =>
          rw [lines_cons, ih (by simp) hline]
          simp [consLine, hc]

end StackQueue.Text
