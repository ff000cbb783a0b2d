import StackQueue.Proofs.Reference.Program
import StackQueue.Proofs.Text.Tokens

/-!
# Reading a program text

Lines and tokens are found as the reference finds them. The lines of a text are what its newlines
separate, and the tokens of a line are taken one after the other from its front.
-/

namespace StackQueue.Reference

open Text

theorem lines_eq (source : List Char) :
    lines source = if (source.splitOn '\n').getLast? = some [] then
      (source.splitOn '\n').dropLast else source.splitOn '\n' :=
  rfl

/-- The lines of a text are what its newlines separate. -/
theorem text_lines_eq (source : List Char) : Text.lines source = lines source := by
  induction source with
  | nil => rfl
  | cons c source ih =>
      obtain ⟨piece, pieces, hsplit⟩ :=
        List.exists_cons_of_ne_nil (List.splitOn_ne_nil '\n' source)
      rw [lines_cons, ih, lines_eq, lines_eq, List.splitOn_cons_eq_if_modifyHead, hsplit]
      -- A newline adds a piece of its own; any other character joins the first piece, and only
      -- then can that piece be a last one that was empty before.
      by_cases hc : c = '\n'
      · subst hc
        simp only [consLine, BEq.rfl, if_true, List.getLast?_cons_cons, List.dropLast_cons_cons]
        split <;> rfl
      · have hbeq : (c == '\n') = false := by simpa using hc
        cases pieces with
        | nil =>
            cases piece with
            | nil => simp [consLine, hc, hbeq]
            | cons d piece => simp [consLine, hc, hbeq]
        | cons other others =>
            simp only [consLine, hc, hbeq, if_false, Bool.false_eq_true, List.modifyHead_cons,
              List.getLast?_cons_cons, List.dropLast_cons_cons]
            by_cases hlast : (other :: others).getLast? = some []
            · rw [if_pos hlast, if_pos hlast]
            · rw [if_neg hlast, if_neg hlast]

/-- Separators in front of a text change no token. -/
theorem tokens_dropWhile (text : List Char) :
    tokens (text.dropWhile isSeparator) = tokens text := by
  have hblank : Blank (text.takeWhile isSeparator) :=
    List.all_eq_true.mp List.all_takeWhile
  have htokens := hblank.tokens_append (text.dropWhile isSeparator)
  rw [List.takeWhile_append_dropWhile] at htokens
  exact htokens.symm

/-- Tokens are taken one after the other from the front of a text. -/
theorem tokens_eq (text : List Char) :
    tokens text = match nextToken? text with
      | none => []
      | some (token, rest) => token :: tokens rest := by
  rw [← tokens_dropWhile, nextToken?]
  cases hrest : text.dropWhile isSeparator with
  | nil => exact tokens_nil
  | cons c rest =>
      have hc : isSeparator c = false := by
        have hhead := List.head_dropWhile_not isSeparator (l := text)
          (by rw [hrest]; exact List.cons_ne_nil c rest)
        simpa [hrest] using hhead
      have hstands := (stands_takeWhile hc rest).tokens_append
      rwa [List.takeWhile_append_dropWhile] at hstands

/-- The second token of a text is the first of what is behind the first one. -/
theorem head?_tokens (text : List Char) :
    (tokens text).head? = (nextToken? text).map Prod.fst := by
  rw [tokens_eq]
  cases nextToken? text with
  | none => rfl
  | some next => rfl

end StackQueue.Reference
