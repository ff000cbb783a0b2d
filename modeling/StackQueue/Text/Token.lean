/-!
# Tokens of a line

A token is a maximal nonempty run of characters none of which is a separator. The separators are
the five ASCII blanks space, tab, newline, form feed and carriage return; a vertical tab or a blank
from beyond ASCII is part of a token. A separator splits a text into parts whose tokens can be
found apart.
-/

namespace StackQueue.Text

/-- The characters that stand between tokens. -/
def isSeparator (c : Char) : Bool :=
  c = ' ' || c = '\t' || c = '\n' || c = '\x0c' || c = '\r'

/-- The tokens of a text, in order. -/
def tokens (text : List Char) : List (List Char) :=
  (text.splitOnP isSeparator).filter fun piece => !piece.isEmpty

/-- A text without characters has no token. -/
@[simp] theorem tokens_nil : tokens [] = [] := by
  simp [tokens]

/-- No token is empty. -/
theorem ne_nil_of_mem_tokens {text token : List Char} (h : token ∈ tokens text) : token ≠ [] := by
  rintro rfl
  simp [tokens] at h

/-- A separator stands between the tokens before it and the tokens behind it. -/
theorem tokens_append_cons {c : Char} (hc : isSeparator c = true) (text others : List Char) :
    tokens (text ++ c :: others) = tokens text ++ tokens others := by
  simp [tokens, List.splitOnP_append_cons, hc]

/-- A text without separator is one token, unless it is empty. -/
theorem tokens_eq_singleton {token : List Char} (hne : token ≠ [])
    (h : ∀ c ∈ token, isSeparator c = false) : tokens token = [token] := by
  simp [tokens, List.splitOnP_eq_singleton h, hne]

/-- A separator in front changes no token. -/
theorem tokens_cons_of_isSeparator {c : Char} (hc : isSeparator c = true) (text : List Char) :
    tokens (c :: text) = tokens text := by
  simpa using tokens_append_cons hc [] text

/-- A token in front of a separator comes first. -/
theorem tokens_append_of_isSeparator {token : List Char} {c : Char} (hne : token ≠ [])
    (h : ∀ d ∈ token, isSeparator d = false) (hc : isSeparator c = true) (others : List Char) :
    tokens (token ++ c :: others) = token :: tokens others := by
  rw [tokens_append_cons hc, tokens_eq_singleton hne h, List.singleton_append]

/-- No piece holds a character that the text was split at. -/
theorem eq_false_of_mem_splitOnP {p : Char → Bool} {text piece : List Char} {c : Char}
    (h : piece ∈ text.splitOnP p) (hc : c ∈ piece) : p c = false := by
  induction text generalizing piece with
  | nil =>
      obtain rfl : piece = [] := by simpa using h
      cases hc
  | cons a text ih =>
      obtain ⟨first, others, hsplit⟩ :=
        List.exists_cons_of_ne_nil (List.splitOnP_ne_nil p text)
      rw [hsplit] at ih
      rw [List.splitOnP_cons_eq_if_modifyHead, hsplit] at h
      cases ha : p a with
      | true =>
          rw [ha, if_pos rfl] at h
          rcases List.mem_cons.mp h with rfl | h
          · cases hc
          · exact ih h hc
      | false =>
          rw [ha, if_neg Bool.false_ne_true, List.modifyHead_cons] at h
          rcases List.mem_cons.mp h with rfl | h
          · rcases List.mem_cons.mp hc with rfl | hc
            · exact ha
            · exact ih List.mem_cons_self hc
          · exact ih (List.mem_cons_of_mem first h) hc

/-- No token holds a separator. -/
theorem isSeparator_eq_false_of_mem_tokens {text token : List Char} (h : token ∈ tokens text)
    {c : Char} (hc : c ∈ token) : isSeparator c = false :=
  eq_false_of_mem_splitOnP (List.mem_filter.mp h).1 hc

end StackQueue.Text
