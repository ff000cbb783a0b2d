import Mathlib.Data.List.Forall2
import StackQueue.Proofs.Reference.Reading

/-!
# Numbered lines

The lines of a program are the pieces of its text between newlines, less an empty one behind the
last newline, and they are numbered from one. The statements do not change when newlines are
preceded by carriage returns, when separators are put around pieces, or when the last line is
ended. No character but a newline starts a line.
-/

namespace StackQueue

namespace Text

/-- The pieces of a text between its newlines. There is one more of them than newlines. -/
structure Pieces (pieces : List (List Char)) (text : List Char) : Prop where
  nonempty : pieces ≠ []
  unbroken : ∀ piece ∈ pieces, '\n' ∉ piece
  joined : ['\n'].intercalate pieces = text

/-- The pieces that are lines: an empty one behind the last newline is none. -/
def withoutEmptyLast (pieces : List (List Char)) : List (List Char) :=
  if pieces.getLast? = some [] then pieces.dropLast else pieces

/-- A text with a carriage return put in front of every newline. -/
def withCarriageReturns (text : List Char) : List Char :=
  text.flatMap fun c => if c = '\n' then ['\r', '\n'] else [c]

/-- Separators that can be put around a line: any but newlines. -/
def Margin (text : List Char) : Prop :=
  Blank text ∧ '\n' ∉ text

instance : DecidablePred Margin :=
  fun text => inferInstanceAs (Decidable (Blank text ∧ '\n' ∉ text))

/-- A text with margins put around its pieces. -/
def framed (fronts backs : Nat → List Char) (pieces : List (List Char)) : List Char :=
  ['\n'].intercalate (pieces.mapIdx fun index piece => fronts index ++ piece ++ backs index)

variable {pieces : List (List Char)} {text : List Char}

theorem newline_not_mem_of_mem_splitOn (text : List Char) :
    ∀ piece ∈ text.splitOn '\n', '\n' ∉ piece := by
  intro piece hpiece hmem
  simpa using eq_false_of_mem_splitOnP hpiece hmem

/-- A text is divided by its newlines in one way. -/
theorem pieces_iff : Pieces pieces text ↔ pieces = text.splitOn '\n' := by
  constructor
  · intro h
    rw [← h.joined, List.splitOn_intercalate '\n' h.unbroken h.nonempty]
  · rintro rfl
    exact ⟨List.splitOn_ne_nil '\n' text, newline_not_mem_of_mem_splitOn text,
      List.intercalate_splitOn '\n'⟩

/-- The lines of a text are its pieces. -/
theorem Pieces.lines_eq (h : Pieces pieces text) : lines text = withoutEmptyLast pieces := by
  rw [Reference.text_lines_eq, pieces_iff.mp h]
  rfl

/-! ### Newlines and carriage returns -/

/-- A newline behind the last line does not start another one. -/
theorem lines_concat_newline (hne : text ≠ []) (h : text.getLast? ≠ some '\n') :
    lines (text ++ ['\n']) = lines text := by
  induction text with
  | nil => exact absurd rfl hne
  | cons c text ih =>
      rw [List.cons_append, lines_cons, lines_cons]
      cases text with
      | nil =>
          have hc : c ≠ '\n' := by simpa using h
          simp [consLine, hc]
      | cons d text =>
          rw [List.getLast?_cons_cons] at h
          rw [ih (List.cons_ne_nil d text) h]

/-- Newlines are counted, and a last line that no newline ends. -/
theorem length_lines (text : List Char) :
    (lines text).length =
      text.count '\n' + if text ≠ [] ∧ text.getLast? ≠ some '\n' then 1 else 0 := by
  by_cases hlast : text ≠ [] ∧ text.getLast? ≠ some '\n'
  · rw [if_pos hlast, ← lines_concat_newline hlast.1 hlast.2, length_lines_of_newline]
  · rw [if_neg hlast, Nat.add_zero]
    rcases Decidable.not_and_iff_not_or_not.mp hlast with hnil | hnewline
    · rw [Decidable.not_not.mp hnil]
      rfl
    · have hends : EndsLine (String.ofList text) :=
        Or.inr (by simpa using hnewline)
      simpa [newlines] using hends.length_lines

/-- A carriage return in front of a newline becomes the last character of a line. -/
theorem lines_withCarriageReturns (text : List Char) :
    List.Forall₂ (fun line other => ∃ back, Blank back ∧ other = line ++ back) (lines text)
      (lines (withCarriageReturns text)) := by
  induction text with
  | nil => exact .nil
  | cons c text ih =>
      by_cases hc : c = '\n'
      · subst hc
        exact .cons ⟨['\r'], by decide, rfl⟩ ih
      · have hcons : withCarriageReturns (c :: text) = c :: withCarriageReturns text := by
          simp [withCarriageReturns, hc]
        rw [hcons, lines_cons, lines_cons]
        generalize lines text = first at ih
        generalize lines (withCarriageReturns text) = second at ih
        simp only [consLine, if_neg hc]
        cases ih with
        | nil => exact .cons ⟨[], by decide, by simp⟩ .nil
        | cons hline hothers =>
            obtain ⟨back, hback, rfl⟩ := hline
            exact .cons ⟨back, hback, rfl⟩ hothers

/-- A line that some newline or the end of the text ends is found behind the lines in front. -/
theorem getElem?_lines {before after : String} {line : List Char} (hbefore : EndsLine before)
    (hne : line ≠ []) (hline : '\n' ∉ line) (hafter : ∀ c ∈ after.toList.head?, c = '\n') :
    (lines (before.toList ++ (line ++ after.toList)))[newlines before]? = some line := by
  rw [hbefore.lines_append, ← hbefore.length_lines, List.getElem?_append_right (Nat.le_refl _),
    Nat.sub_self]
  cases hrest : after.toList with
  | nil => rw [List.append_nil, lines_of_no_newline line hne hline, List.getElem?_cons_zero]
  | cons c rest =>
      obtain rfl := hafter c (by rw [hrest]; rfl)
      rw [lines_append_newline _ _ hline, List.getElem?_cons_zero]

/-! ### Margins -/

section Framing

variable {fronts backs : Nat → List Char}

theorem Pieces.framed (h : Pieces pieces text)
    (hmargins : ∀ index, Margin (fronts index) ∧ Margin (backs index)) :
    Pieces (pieces.mapIdx fun index piece => fronts index ++ piece ++ backs index)
      (framed fronts backs pieces) where
  nonempty := by simpa [List.mapIdx_eq_nil_iff] using h.nonempty
  unbroken line hline := by
    obtain ⟨index, hindex, rfl⟩ := List.mem_mapIdx.mp hline
    have hpiece := h.unbroken _ (List.getElem_mem hindex)
    simp [hpiece, (hmargins index).1.2, (hmargins index).2.2]
  joined := rfl

theorem forall₂_mapIdx {f : Nat → List Char → List Char}
    (h : ∀ index piece, tokens (f index piece) = tokens piece) (pieces : List (List Char)) :
    List.Forall₂ (fun line other => tokens other = tokens line) pieces (pieces.mapIdx f) := by
  induction pieces generalizing f with
  | nil => exact .nil
  | cons piece pieces ih =>
      rw [List.mapIdx_cons]
      exact .cons (h 0 piece) (ih fun index => h (index + 1))

/-- Margins change no token of a line, and only an empty last piece that gets some is a new line. -/
theorem Pieces.lines_framed (h : Pieces pieces text)
    (hmargins : ∀ index, Margin (fronts index) ∧ Margin (backs index))
    (hlast : pieces.getLast? = some [] →
      fronts (pieces.length - 1) = [] ∧ backs (pieces.length - 1) = []) :
    List.Forall₂ (fun line other => tokens other = tokens line) (lines text)
      (lines (Text.framed fronts backs pieces)) := by
  rw [h.lines_eq, (h.framed hmargins).lines_eq, withoutEmptyLast, withoutEmptyLast,
    List.getLast?_mapIdx]
  have htokens := forall₂_mapIdx (f := fun index piece => fronts index ++ piece ++ backs index)
    (fun index piece => by
      rw [(hmargins index).2.1.append_tokens, (hmargins index).1.1.tokens_append]) pieces
  by_cases hempty : pieces.getLast? = some []
  · obtain ⟨hfront, hback⟩ := hlast hempty
    rw [if_pos hempty, hempty, if_pos (by simp [hfront, hback]), List.dropLast_eq_take,
      List.dropLast_eq_take, List.length_mapIdx]
    exact List.forall₂_take _ htokens
  · rw [if_neg hempty, if_neg]
    · exact htokens
    · simp only [Option.map_eq_some_iff, List.append_eq_nil_iff, not_exists, not_and, and_imp]
      rintro piece hpiece - rfl
      exact absurd hpiece hempty

end Framing

end Text

namespace Statement

open Text

variable {source : String} {pieces : List (List Char)}

/-- Lines with the same tokens hold the same statements. -/
theorem numberedFrom_congr {lines others : List (List Char)}
    (h : List.Forall₂ (fun line other => tokens other = tokens line) lines others) (number : Nat) :
    numberedFrom number others = numberedFrom number lines := by
  induction h generalizing number with
  | nil => rfl
  | cons hline _ ih => rw [numberedFrom_cons, numberedFrom_cons, ofLine_congr hline, ih]

theorem getElem?_numbered (source : String) (index : Nat) :
    (numbered source)[index]? = (lines source.toList)[index]?.map fun line =>
      (index + 1, parse (String.ofList line)) := by
  rw [numbered, List.getElem?_map, List.getElem?_zipIdx, Option.map_map]
  simp only [Function.comp_def, parse, String.toList_ofList, Nat.add_comm 1 index]

theorem length_numbered (source : String) :
    (numbered source).length =
      newlines source + if source ≠ "" ∧ source.toList.getLast? ≠ some '\n' then 1 else 0 := by
  rw [numbered_eq, length_numberedFrom, length_lines, newlines]
  simp only [ne_eq, String.toList_eq_nil_iff]

theorem numbered_withCarriageReturns (source : String) :
    numbered (String.ofList (withCarriageReturns source.toList)) = numbered source := by
  rw [numbered_eq, numbered_eq, String.toList_ofList]
  apply numberedFrom_congr
  refine (lines_withCarriageReturns source.toList).imp ?_
  rintro line _ ⟨back, hback, rfl⟩
  exact hback.append_tokens line

theorem numbered_framed (h : Pieces pieces source.toList) {fronts backs : Nat → List Char}
    (hmargins : ∀ index, Margin (fronts index) ∧ Margin (backs index))
    (hlast : pieces.getLast? = some [] →
      fronts (pieces.length - 1) = [] ∧ backs (pieces.length - 1) = []) :
    numbered (String.ofList (framed fronts backs pieces)) = numbered source := by
  rw [numbered_eq, numbered_eq, String.toList_ofList]
  exact numberedFrom_congr (h.lines_framed hmargins hlast) 1

theorem numbered_concat_newline (hne : source ≠ "") (h : source.toList.getLast? ≠ some '\n') :
    numbered (source ++ "\n") = numbered source := by
  have hlines : lines (source ++ "\n").toList = lines source.toList := by
    rw [String.toList_append]
    exact lines_concat_newline (by simpa using hne) h
  rw [numbered_eq, numbered_eq, hlines]

/-- The statements of a program are those of the pieces of its text between newlines, numbered from
one; an empty piece behind the last newline is not counted. They are the same with a carriage return
in front of every newline, with any separators but newlines in front of and behind every piece that
is a line, and with a newline behind a last line that has none. What is around a carriage return, up
to the next newlines, is one line. -/
theorem numbered_exact (source : String) :
    ∃ pieces, (∀ others, Pieces others source.toList ↔ others = pieces) ∧
      (∀ index, (numbered source)[index]? =
        (withoutEmptyLast pieces)[index]?.map fun piece =>
          (index + 1, parse (String.ofList piece))) ∧
      (numbered source).length =
        newlines source + (if source ≠ "" ∧ source.toList.getLast? ≠ some '\n' then 1 else 0) ∧
      numbered (String.ofList (withCarriageReturns source.toList)) = numbered source ∧
      (∀ fronts backs : Nat → List Char,
        (∀ index, Margin (fronts index) ∧ Margin (backs index)) →
        (pieces.getLast? = some [] →
          fronts (pieces.length - 1) = [] ∧ backs (pieces.length - 1) = []) →
        numbered (String.ofList (framed fronts backs pieces)) = numbered source) ∧
      (source ≠ "" → source.toList.getLast? ≠ some '\n' →
        numbered (source ++ "\n") = numbered source) ∧
      ∀ before front back after : String, source = before ++ front ++ "\r" ++ back ++ after →
        EndsLine before → '\n' ∉ front.toList → '\n' ∉ back.toList →
        (∀ c ∈ after.toList.head?, c = '\n') →
        (numbered source)[newlines before]? =
          some (newlines before + 1, parse (front ++ "\r" ++ back)) := by
  have hpieces : Pieces (source.toList.splitOn '\n') source.toList := pieces_iff.mpr rfl
  refine ⟨_, fun others => pieces_iff, ?_, length_numbered source,
    numbered_withCarriageReturns source, ?_, numbered_concat_newline, ?_⟩
  · intro index
    rw [getElem?_numbered, hpieces.lines_eq]
  · intro fronts backs hmargins hlast
    exact numbered_framed hpieces hmargins hlast
  · rintro before front back after rfl hbefore hfront hback hafter
    have hline : '\n' ∉ front.toList ++ '\r' :: back.toList := by simp [hfront, hback]
    have hfound := getElem?_lines hbefore (by simp) hline hafter
    have hsource : (before ++ front ++ "\r" ++ back ++ after).toList =
        before.toList ++ ((front.toList ++ '\r' :: back.toList) ++ after.toList) := by
      simp [String.toList_append]
    rw [getElem?_numbered, hsource, hfound, Option.map_some, parse, parse, String.toList_ofList]
    simp [String.toList_append]

/-- A blank line and an unfinished last one are numbered, and a carriage return divides no lines. -/
theorem numbered_exact_carriage_returns :
    numbered "push 1\r\n\npall\rpop\n" = numbered "push 1\r\n\npall\rpop" ∧
      numbered " push 1\r\t\n \t\n pall\rpop\t" = numbered "push 1\r\n\npall\rpop" ∧
      (numbered "push 1\r\n\npall\rpop")[2]? = some (3, .op "pall" (some "pop")) := by
  obtain ⟨pieces, hpieces, -, -, -, hframed, hends, hcarriage⟩ :=
    numbered_exact "push 1\r\n\npall\rpop"
  obtain rfl : ["push 1\r".toList, [], "pall\rpop".toList] = pieces :=
    (hpieces _).mp ⟨by decide, by decide, by decide⟩
  refine ⟨hends (by decide) (by decide), ?_, ?_⟩
  · exact hframed (fun _ => [' ']) (fun _ => ['\t']) (fun _ => by decide) (by decide)
  · exact hcarriage "push 1\r\n\n" "pall" "pop" "" (by decide) (Or.inr (by decide)) (by decide)
      (by decide) (by simp)

end Statement

end StackQueue
