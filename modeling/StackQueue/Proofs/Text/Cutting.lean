import StackQueue.Statement

/-!
# Cutting a text between its lines

A text can be cut behind any of its newlines. The lines of the first part come before those of the
second, and the statements of a program are numbered through from one part to the next.
-/

namespace StackQueue

namespace Text

/-- The part of a text up to its newline number `count`, or all of it if it has fewer. -/
def firstLines : Nat → List Char → List Char
  | 0, _ => []
  | _ + 1, [] => []
  | count + 1, c :: text => c :: firstLines (if c = '\n' then count else count + 1) text

theorem consLine_ne_nil (c : Char) (rest : List (List Char)) : consLine c rest ≠ [] := by
  unfold consLine
  split
  · exact List.cons_ne_nil _ _
  · split <;> exact List.cons_ne_nil _ _

theorem lines_ne_nil {text : List Char} (h : text ≠ []) : lines text ≠ [] := by
  cases text with
  | nil => exact absurd rfl h
  | cons c text => exact consLine_ne_nil c (lines text)

/-- A character in front changes only the first line, and it adds one only if it is a newline. -/
theorem consLine_append {c : Char} (rest others : List (List Char)) (h : c = '\n' ∨ rest ≠ []) :
    consLine c (rest ++ others) = consLine c rest ++ others := by
  unfold consLine
  by_cases hc : c = '\n'
  · rw [if_pos hc, if_pos hc, List.cons_append]
  · rw [if_neg hc, if_neg hc]
    cases rest with
    | nil => exact absurd rfl (h.resolve_left hc)
    | cons line rest => rfl

theorem consLine_take (c : Char) (rest : List (List Char)) (count : Nat) :
    consLine c (rest.take (if c = '\n' then count else count + 1)) =
      (consLine c rest).take (count + 1) := by
  unfold consLine
  by_cases hc : c = '\n'
  · rw [if_pos hc, if_pos hc, if_pos hc, List.take_succ_cons]
  · rw [if_neg hc, if_neg hc, if_neg hc]
    cases rest <;> simp

/-- The lines of a text that ends with a newline come before the lines of what follows it. -/
theorem lines_append {text : List Char} (h : text.getLast? = some '\n') (others : List Char) :
    lines (text ++ others) = lines text ++ lines others := by
  induction text with
  | nil => cases h
  | cons c text ih =>
      rw [List.cons_append, lines_cons, lines_cons]
      cases text with
      | nil =>
          obtain rfl : c = '\n' := by simpa using h
          exact consLine_append [] (lines others) (Or.inl rfl)
      | cons d text =>
          rw [List.getLast?_cons_cons] at h
          rw [ih h]
          exact consLine_append _ _ (Or.inr (lines_ne_nil (List.cons_ne_nil d text)))

/-- As many lines end in a text as it has newlines. -/
theorem length_lines_of_newline (text : List Char) :
    (lines (text ++ ['\n'])).length = text.count '\n' + 1 := by
  induction text with
  | nil => rfl
  | cons c text ih =>
      rw [List.cons_append, lines_cons]
      by_cases hc : c = '\n'
      · subst hc
        simp [consLine, ih]
      · cases hlines : lines (text ++ ['\n']) with
        | nil => exact absurd hlines (lines_ne_nil (by simp))
        | cons line others =>
            rw [hlines] at ih
            simpa [consLine, hc] using ih

/-- A text that is cut behind its first lines has these lines. -/
theorem lines_firstLines (count : Nat) (text : List Char) :
    lines (firstLines count text) = (lines text).take count := by
  induction text generalizing count with
  | nil => cases count <;> simp [firstLines]
  | cons c text ih =>
      cases count with
      | zero => simp [firstLines]
      | succ count =>
          rw [lines_cons, ← consLine_take, ← ih]
          rfl

/-- A text whose lines are all ended by newlines, so that other lines can follow. -/
def EndsLine (text : String) : Prop :=
  text = "" ∨ text.toList.getLast? = some '\n'

/-- The number of newlines of a text. -/
def newlines (text : String) : Nat :=
  text.toList.count '\n'

variable {text : String}

/-- A text whose lines are all ended has as many lines as newlines. -/
theorem EndsLine.length_lines (h : EndsLine text) : (lines text.toList).length = newlines text := by
  rcases h with rfl | hlast
  · rfl
  · obtain ⟨body, hbody⟩ := List.getLast?_eq_some_iff.mp hlast
    rw [newlines, hbody, length_lines_of_newline, List.count_append, List.count_singleton_self]

theorem EndsLine.lines_append (h : EndsLine text) (others : List Char) :
    lines (text.toList ++ others) = lines text.toList ++ lines others := by
  rcases h with rfl | hlast
  · rfl
  · exact Text.lines_append hlast others

end Text

namespace Statement

/-- The statements of lines that are numbered from `number` on. -/
def numberedFrom (number : Nat) (lines : List (List Char)) : List (Nat × Statement) :=
  (lines.zipIdx number).map fun entry => (entry.2, ofLine entry.1)

theorem numbered_eq (source : String) :
    numbered source = numberedFrom 1 (Text.lines source.toList) := rfl

theorem numberedFrom_cons (number : Nat) (line : List Char) (lines : List (List Char)) :
    numberedFrom number (line :: lines) =
      (number, ofLine line) :: numberedFrom (number + 1) lines := by
  simp only [numberedFrom, List.zipIdx_cons, List.map_cons]

theorem length_numberedFrom (number : Nat) (lines : List (List Char)) :
    (numberedFrom number lines).length = lines.length := by
  simp only [numberedFrom, List.length_map, List.length_zipIdx]

/-- Lines are numbered through from one part to the next. -/
theorem numberedFrom_append (number : Nat) (first second : List (List Char)) :
    numberedFrom number (first ++ second) =
      numberedFrom number first ++ numberedFrom (number + first.length) second := by
  simp only [numberedFrom, List.zipIdx_append, List.map_append]

theorem numberedFrom_take (number count : Nat) (lines : List (List Char)) :
    numberedFrom number (lines.take count) = (numberedFrom number lines).take count := by
  induction lines generalizing number count with
  | nil => simp [numberedFrom]
  | cons line lines ih =>
      cases count with
      | zero => rfl
      | succ count =>
          rw [List.take_succ_cons, numberedFrom_cons, numberedFrom_cons, ih, List.take_succ_cons]

/-- A statement is read off the line behind the lines of the statements in front of it. -/
theorem exists_of_numberedFrom_eq_append {number line : Nat} {lines : List (List Char)}
    {before later : List (Nat × Statement)} {statement : Statement}
    (h : numberedFrom number lines = before ++ (line, statement) :: later) :
    ∃ text, lines[before.length]? = some text ∧ line = number + before.length ∧
      statement = ofLine text := by
  have hentry : (numberedFrom number lines)[before.length]? = some (line, statement) := by
    rw [h, List.getElem?_append_right (Nat.le_refl _), Nat.sub_self, List.getElem?_cons_zero]
  rw [numberedFrom, List.getElem?_map, List.getElem?_zipIdx] at hentry
  cases hline : lines[before.length]? with
  | none =>
      rw [hline] at hentry
      cases hentry
  | some text =>
      rw [hline] at hentry
      simp only [Option.map_some, Option.some.injEq, Prod.mk.injEq] at hentry
      exact ⟨text, rfl, hentry.1.symm, hentry.2.symm⟩

/-- Statements that are numbered from further down on. -/
theorem numberedFrom_add (number count : Nat) (lines : List (List Char)) :
    numberedFrom (number + count) lines =
      (numberedFrom number lines).map fun statement => (statement.1 + count, statement.2) := by
  induction lines generalizing number with
  | nil => rfl
  | cons line lines ih =>
      rw [numberedFrom_cons, numberedFrom_cons, List.map_cons, ← ih, Nat.add_right_comm]

/-- The statements of a text that follows another one are numbered from behind its last line. -/
theorem numbered_append {first : String} (h : Text.EndsLine first) (second : String) :
    numbered (first ++ second) = numbered first ++
      (numbered second).map fun statement =>
        (statement.1 + Text.newlines first, statement.2) := by
  rw [numbered_eq, numbered_eq, numbered_eq, String.toList_append, h.lines_append,
    numberedFrom_append, h.length_lines, numberedFrom_add]

end Statement

end StackQueue
