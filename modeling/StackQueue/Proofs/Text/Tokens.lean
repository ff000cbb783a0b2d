import Mathlib.Data.List.Perm.Basic
import StackQueue.Proofs.Text.Writing

/-!
# Tokens at their places

A token stands at a place of a text: it is a run of characters none of which is a separator, and on
either side of it there is a separator or nothing. The tokens that are found are all that stand in
the text, from left to right. A line is read by the first two of them, whatever separates them and
whatever follows.

## Implementation notes

`StandsAt` looks only at a word and at the two characters that touch it. The order of the tokens is
the order of their places.
-/

namespace StackQueue

namespace Text

/-- What is between tokens: any number of separators. -/
def Blank (text : List Char) : Prop :=
  ∀ c ∈ text, isSeparator c = true

/-- What can follow a token: nothing, or a text that begins with a separator. -/
def Apart (text : List Char) : Prop :=
  ∀ c ∈ text.head?, isSeparator c = true

-- As for `IsToken`, the characters of the text decide.
instance : DecidablePred Blank :=
  fun text => decidable_of_iff (text.all isSeparator = true) (by simp [Blank])

instance : DecidablePred Apart :=
  fun text => decidable_of_iff (text.head?.all isSeparator = true) (by cases text <;> simp [Apart])

/-- A nonempty word without separator, which cannot be made longer on either side. -/
structure Stands (before word after : List Char) : Prop where
  nonempty : word ≠ []
  unbroken : ∀ c ∈ word, isSeparator c = false
  left : ∀ c ∈ before.getLast?, isSeparator c = true
  right : Apart after

/-- A word stands in a text behind `place` other characters. -/
def StandsAt (word : List Char) (place : Nat) (text : List Char) : Prop :=
  ∃ before after, text = before ++ word ++ after ∧ before.length = place ∧ Stands before word after

/-- The entries are the words that stand in a text, from left to right. -/
structure Lists (entries : List (Nat × List Char)) (text : List Char) : Prop where
  increasing : entries.Pairwise fun first second => first.1 < second.1
  mem_iff : ∀ place word, (place, word) ∈ entries ↔ StandsAt word place text

/-- The words that stand in a text, from left to right. -/
def InOrder (words : List String) (text : String) : Prop :=
  ∃ entries, Lists entries text.toList ∧ words = entries.map fun entry => String.ofList entry.2

variable {c : Char} {text word before after : List Char} {place : Nat}

theorem isSeparator_iff :
    isSeparator c = true ↔ c ∈ [' ', '\t', '\n', '\x0c', '\r'] := by
  simp only [isSeparator, Bool.or_eq_true, decide_eq_true_eq, List.mem_cons, List.not_mem_nil,
    or_false, or_assoc]

theorem Apart.of_append_left (h : Apart (before ++ after)) : Apart before := by
  intro c hc
  apply h c
  rw [List.head?_append, Option.mem_def.mp hc]
  rfl

/-- What nothing touches has no character in common with a run that no separator breaks. -/
theorem Apart.eq_nil (h : Apart text) (hword : ∀ c ∈ text, isSeparator c = false) : text = [] := by
  cases text with
  | nil => rfl
  | cons c text => simpa [hword c List.mem_cons_self] using h c rfl

theorem eq_nil_of_getLast? (h : ∀ c ∈ text.getLast?, isSeparator c = true)
    (hword : ∀ c ∈ text, isSeparator c = false) : text = [] := by
  cases hlast : text.getLast? with
  | none => exact List.getLast?_eq_none_iff.mp hlast
  | some c =>
      have hmem := hword c (List.mem_of_getLast? hlast)
      simp [h c hlast] at hmem

/-- What is taken from the front of a text up to the next separator stands there. -/
theorem stands_takeWhile (hc : isSeparator c = false) (text : List Char) :
    Stands [] ((c :: text).takeWhile fun d => !isSeparator d)
      ((c :: text).dropWhile fun d => !isSeparator d) where
  nonempty := by
    rw [List.takeWhile_cons_of_pos (by simp [hc])]
    exact List.cons_ne_nil _ _
  unbroken d hd := by simpa using List.all_eq_true.mp List.all_takeWhile d hd
  left := by simp
  right d hd := by
    have hhead := List.head?_dropWhile_not (fun d => !isSeparator d) (c :: text)
    rw [Option.mem_def.mp hd] at hhead
    simpa using hhead

/-- A text is taken to pieces from its front, where there is a separator or a token. -/
theorem pieces_induction {motive : List Char → Prop} (nil : motive [])
    (separator : ∀ c text, isSeparator c = true → motive text → motive (c :: text))
    (token : ∀ word text, Stands [] word text → motive text → motive (word ++ text))
    (text : List Char) : motive text := by
  induction hlength : text.length using Nat.strongRecOn generalizing text with
  | ind length ih =>
      subst hlength
      cases text with
      | nil => exact nil
      | cons c text =>
          cases hc : isSeparator c with
          | true => exact separator c text hc (ih _ (Nat.lt_succ_self _) text rfl)
          | false =>
              have hshort : ((c :: text).dropWhile fun d => !isSeparator d).length <
                  (c :: text).length := by
                rw [List.dropWhile_cons_of_pos (by simp [hc])]
                exact Nat.lt_succ_of_le (List.dropWhile_suffix _).length_le
              rw [← List.takeWhile_append_dropWhile (p := fun d => !isSeparator d) (l := c :: text)]
              exact token _ _ (stands_takeWhile hc text) (ih _ hshort _ rfl)

/-! ### The tokens of a text -/

/-- A token in front comes before the tokens of the rest. -/
theorem Stands.tokens_append (h : Stands [] word after) :
    tokens (word ++ after) = word :: tokens after := by
  cases after with
  | nil => rw [List.append_nil, tokens_nil, tokens_eq_singleton h.nonempty h.unbroken]
  | cons c after =>
      have hc := h.right c rfl
      rw [tokens_append_of_isSeparator h.nonempty h.unbroken hc, tokens_cons_of_isSeparator hc]

theorem IsToken.stands {word : String} (h : IsToken word) (hafter : Apart after) :
    Stands [] word.toList after :=
  ⟨h.1, h.2, by simp, hafter⟩

/-- Separators in front change no token. -/
theorem Blank.tokens_append (h : Blank before) (text : List Char) :
    tokens (before ++ text) = tokens text := by
  induction before with
  | nil => rfl
  | cons c before ih =>
      obtain ⟨hc, hbefore⟩ := List.forall_mem_cons.mp h
      rw [List.cons_append, tokens_cons_of_isSeparator hc, ih hbefore]

theorem Blank.tokens_eq_nil (h : Blank text) : tokens text = [] := by
  rw [← List.append_nil text, h.tokens_append, tokens_nil]

/-- Separators behind change no token. -/
theorem Blank.append_tokens (h : Blank after) (text : List Char) :
    tokens (text ++ after) = tokens text := by
  cases after with
  | nil => rw [List.append_nil]
  | cons c after =>
      obtain ⟨hc, hafter⟩ := List.forall_mem_cons.mp h
      rw [tokens_append_cons hc, Blank.tokens_eq_nil hafter, List.append_nil]

theorem Blank.apart (h : Blank text) : Apart text :=
  fun c hc => h c (List.mem_of_head? hc)

theorem Blank.apart_append (h : Blank before) (hne : before ≠ []) (after : List Char) :
    Apart (before ++ after) := by
  cases before with
  | nil => exact absurd rfl hne
  | cons c before => exact fun d hd => h.apart d hd

/-! ### The places of tokens -/

theorem not_standsAt_nil : ¬StandsAt word place [] := by
  rintro ⟨before, after, htext, -, hstands⟩
  simp only [List.nil_eq, List.append_eq_nil_iff] at htext
  exact hstands.nonempty htext.1.2

/-- Behind a separator in front, tokens stand one place further on. -/
theorem standsAt_cons (hc : isSeparator c = true) :
    StandsAt word place (c :: text) ↔ ∃ other, place = other + 1 ∧ StandsAt word other text := by
  constructor
  · rintro ⟨before, after, htext, rfl, hstands⟩
    cases before with
    | nil =>
        -- A token does not begin with the separator.
        obtain ⟨d, rest, rfl⟩ := List.exists_cons_of_ne_nil hstands.nonempty
        obtain rfl : c = d := (List.cons.inj htext).1
        simp [hstands.unbroken c List.mem_cons_self] at hc
    | cons d before =>
        refine ⟨before.length, rfl, before, after, (List.cons.inj htext).2, rfl, ?_⟩
        refine { hstands with left := ?_ }
        intro e he
        apply hstands.left e
        rw [List.getLast?_cons, Option.mem_def.mp he]
        rfl
  · rintro ⟨other, rfl, before, after, rfl, rfl, hstands⟩
    refine ⟨c :: before, after, rfl, rfl, { hstands with left := ?_ }⟩
    intro e he
    rw [List.getLast?_cons] at he
    cases hlast : before.getLast? with
    | none =>
        rw [hlast] at he
        cases he
        exact hc
    | some d =>
        rw [hlast] at he
        cases he
        exact hstands.left d hlast

/-- Of two tokens that begin together neither goes on behind the other. -/
theorem Stands.eq_of_append_eq {first second rest : List Char} (hfirst : Stands [] first rest)
    (hsecond : Stands before second after) (h : first ++ rest = second ++ after) :
    first = second := by
  rcases List.append_eq_append_iff.mp h with ⟨more, rfl, rfl⟩ | ⟨more, rfl, rfl⟩
  · have hnil := hfirst.right.of_append_left.eq_nil fun c hc =>
      hsecond.unbroken c (List.mem_append_right _ hc)
    rw [hnil, List.append_nil]
  · have hnil := hsecond.right.of_append_left.eq_nil fun c hc =>
      hfirst.unbroken c (List.mem_append_right _ hc)
    rw [hnil, List.append_nil]

/-- Behind a token in front, the other tokens stand further on by its length. -/
theorem standsAt_append {first rest : List Char} (hfirst : Stands [] first rest) :
    StandsAt word place (first ++ rest) ↔
      place = 0 ∧ word = first ∨
        ∃ other, place = other + first.length ∧ StandsAt word other rest := by
  constructor
  · rintro ⟨before, after, htext, rfl, hstands⟩
    rw [List.append_assoc] at htext
    rcases List.append_eq_append_iff.mp htext with ⟨more, rfl, hrest⟩ | ⟨more, rfl, hafter⟩
    · refine Or.inr ⟨more.length, ?_, more, after, ?_, rfl, ?_⟩
      · rw [List.length_append, Nat.add_comm]
      · rw [hrest, List.append_assoc]
      · refine { hstands with left := ?_ }
        intro c hc
        apply hstands.left c
        rw [List.getLast?_append, Option.mem_def.mp hc]
        rfl
    · -- What is in front of the word lies within the first token, so it is empty.
      have hnil := eq_nil_of_getLast? hstands.left fun c hc =>
        hfirst.unbroken c (List.mem_append_left _ hc)
      subst hnil
      refine Or.inl ⟨rfl, ?_⟩
      exact (hfirst.eq_of_append_eq hstands (by simpa using htext)).symm
  · rintro (⟨rfl, rfl⟩ | ⟨other, rfl, before, after, rfl, rfl, hstands⟩)
    · exact ⟨[], rest, rfl, rfl, hfirst⟩
    · refine ⟨first ++ before, after, ?_, ?_, { hstands with left := ?_ }⟩
      · simp only [List.append_assoc]
      · rw [List.length_append, Nat.add_comm]
      · intro c hc
        cases before with
        | nil =>
            -- The rest does not begin with a token.
            have hapart : Apart word := hfirst.right.of_append_left
            exact absurd (hapart.eq_nil hstands.unbroken) hstands.nonempty
        | cons d before =>
            apply hstands.left c
            rwa [List.getLast?_append_of_ne_nil _ (List.cons_ne_nil d before)] at hc

/-- A character that is no separator is part of a token. -/
theorem exists_standsAt {place : Nat} (h : text[place]? = some c) (hc : isSeparator c = false) :
    ∃ start word, StandsAt word start text ∧ start ≤ place ∧ place < start + word.length := by
  induction text using pieces_induction generalizing place with
  | nil => cases h
  | separator d text hd ih =>
      cases place with
      | zero =>
          obtain rfl : d = c := Option.some.inj h
          rw [hc] at hd
          cases hd
      | succ place =>
          obtain ⟨start, word, hstands, hle, hlt⟩ := ih h
          exact ⟨start + 1, word, (standsAt_cons hd).mpr ⟨start, rfl, hstands⟩, by omega, by omega⟩
  | token first rest hfirst ih =>
      by_cases hplace : place < first.length
      · exact ⟨0, first, (standsAt_append hfirst).mpr (Or.inl ⟨rfl, rfl⟩), by omega, by omega⟩
      · rw [List.getElem?_append_right (by omega)] at h
        obtain ⟨start, word, hstands, hle, hlt⟩ := ih h
        exact ⟨start + first.length, word,
          (standsAt_append hfirst).mpr (Or.inr ⟨start, rfl, hstands⟩), by omega, by omega⟩

/-! ### The tokens in the order of their places -/

/-- The entries of a text that stands further on. -/
def movedOn (count : Nat) (entries : List (Nat × List Char)) : List (Nat × List Char) :=
  entries.map fun entry => (entry.1 + count, entry.2)

variable {entries others : List (Nat × List Char)} {count : Nat}

theorem mem_movedOn :
    (place, word) ∈ movedOn count entries ↔
      ∃ other, place = other + count ∧ (other, word) ∈ entries := by
  simp only [movedOn, List.mem_map, Prod.exists, Prod.mk.injEq]
  constructor
  · rintro ⟨other, _, hmem, rfl, rfl⟩
    exact ⟨other, rfl, hmem⟩
  · rintro ⟨other, rfl, hmem⟩
    exact ⟨other, word, hmem, rfl, rfl⟩

theorem map_snd_movedOn : (movedOn count entries).map Prod.snd = entries.map Prod.snd := by
  rw [movedOn, List.map_map]
  rfl

theorem Lists.increasing_movedOn (h : Lists entries text) (count : Nat) :
    (movedOn count entries).Pairwise fun first second => first.1 < second.1 :=
  h.increasing.map _ fun _ _ hlt => Nat.add_lt_add_right hlt count

/-- The tokens that are found are those that stand in the text, from left to right. -/
theorem exists_lists (text : List Char) :
    ∃ entries, Lists entries text ∧ entries.map Prod.snd = tokens text := by
  induction text using pieces_induction with
  | nil =>
      refine ⟨[], ⟨List.Pairwise.nil, fun place word => ?_⟩, tokens_nil.symm⟩
      exact iff_of_false List.not_mem_nil not_standsAt_nil
  | separator c text hc ih =>
      obtain ⟨entries, hlists, htokens⟩ := ih
      refine ⟨movedOn 1 entries, ⟨hlists.increasing_movedOn 1, fun place word => ?_⟩, ?_⟩
      · rw [mem_movedOn, standsAt_cons hc]
        simp only [hlists.mem_iff]
      · rw [map_snd_movedOn, htokens, tokens_cons_of_isSeparator hc]
  | token first rest hfirst ih =>
      obtain ⟨entries, hlists, htokens⟩ := ih
      have hpos : 0 < first.length := List.length_pos_iff.mpr hfirst.nonempty
      refine ⟨(0, first) :: movedOn first.length entries, ⟨?_, fun place word => ?_⟩, ?_⟩
      · refine List.pairwise_cons.mpr ⟨?_, hlists.increasing_movedOn first.length⟩
        rintro ⟨place, word⟩ hmem
        obtain ⟨other, rfl, -⟩ := mem_movedOn.mp hmem
        exact Nat.lt_of_lt_of_le hpos (Nat.le_add_left _ _)
      · rw [List.mem_cons, Prod.mk.injEq, mem_movedOn, standsAt_append hfirst]
        simp only [hlists.mem_iff]
      · rw [List.map_cons, map_snd_movedOn, htokens, hfirst.tokens_append]

theorem Lists.nodup (h : Lists entries text) : entries.Nodup := by
  apply h.increasing.imp
  rintro first _ hlt rfl
  exact Nat.lt_irrefl _ hlt

/-- There is only one way to list the tokens of a text. -/
theorem Lists.unique (h : Lists entries text) (hothers : Lists others text) :
    entries = others := by
  refine List.Perm.eq_of_pairwise ?_ h.increasing hothers.increasing ?_
  · intro first second _ _ hlt hgt
    exact absurd hlt (Nat.lt_asymm hgt)
  · rw [List.perm_ext_iff_of_nodup h.nodup hothers.nodup]
    rintro ⟨place, word⟩
    rw [h.mem_iff, hothers.mem_iff]

theorem inOrder_iff {words : List String} {text : String} :
    InOrder words text ↔ words = (tokens text.toList).map String.ofList := by
  obtain ⟨entries, hlists, htokens⟩ := exists_lists text.toList
  rw [← htokens, List.map_map]
  constructor
  · rintro ⟨others, hothers, rfl⟩
    rw [hlists.unique hothers]
    rfl
  · rintro rfl
    exact ⟨entries, hlists, rfl⟩

end Text

namespace Statement

open Text

variable {words : List String}

theorem ofTokens_eq_blank_iff : ofTokens words = .blank ↔ words = [] := by
  cases words with
  | nil => exact iff_of_true rfl rfl
  | cons word others =>
      rw [ofTokens]
      split <;> simp

theorem ofTokens_eq_mode_iff {selected : Mode} :
    ofTokens words = .mode selected ↔ words.head? = some selected.name := by
  cases words with
  | nil => simp [ofTokens]
  | cons word others =>
      rw [ofTokens, List.head?_cons, Option.some.injEq, eq_comm (a := word),
        ← Mode.ofName?_eq_some_iff]
      split
      · next found hfound => rw [hfound, Statement.mode.injEq, Option.some.injEq]
      · next hnone => simp [hnone]

theorem ofTokens_eq_op_iff {word : String} {operand? : Option String} :
    ofTokens words = .op word operand? ↔
      words.head? = some word ∧ (∀ mode : Mode, word ≠ mode.name) ∧ words[1]? = operand? := by
  cases words with
  | nil => simp [ofTokens]
  | cons first others =>
      rw [ofTokens, List.head?_cons, Option.some.injEq]
      split
      · next found hfound =>
          have hname := Mode.ofName?_eq_some_iff.mp hfound
          refine iff_of_false (by simp) ?_
          rintro ⟨rfl, hmode, -⟩
          exact hmode found hname.symm
      · next hnone =>
          have hmode : ∀ mode : Mode, first ≠ mode.name := by
            intro mode heq
            rw [Mode.ofName?_eq_some_iff.mpr heq.symm] at hnone
            cases hnone
          rw [Statement.op.injEq, List.getElem?_cons_succ, ← List.head?_eq_getElem?]
          constructor
          · rintro ⟨rfl, rfl⟩
            exact ⟨rfl, hmode, rfl⟩
          · rintro ⟨rfl, -, rfl⟩
            exact ⟨rfl, rfl⟩

theorem ofLine_congr {line other : List Char} (h : tokens line = tokens other) :
    ofLine line = ofLine other := by
  rw [ofLine, h, ofLine]

/-- A line is blank exactly if no token stands in it. -/
theorem parse_eq_blank_iff {text : String} :
    parse text = .blank ↔ ∀ word place, ¬StandsAt word place text.toList := by
  obtain ⟨entries, hlists, htokens⟩ := exists_lists text.toList
  rw [parse, ofLine, ofTokens_eq_blank_iff, ← htokens, List.map_map, List.map_eq_nil_iff,
    List.eq_nil_iff_forall_not_mem, Prod.forall]
  simp only [hlists.mem_iff]
  exact forall_comm

/-- Separators around a line make no difference. -/
theorem parse_surrounded {front line back : String} (hfront : Blank front.toList)
    (hback : Blank back.toList) : parse (front ++ line ++ back) = parse line := by
  apply ofLine_congr
  rw [String.toList_append, String.toList_append, hback.append_tokens, hfront.tokens_append]

/-- Behind the second token nothing makes a difference, and between the first two tokens it does
not matter which separators there are. -/
theorem parse_of_two_tokens {front word gap operand rest : String} (hfront : Blank front.toList)
    (hword : IsToken word) (hgap : Blank gap.toList) (hne : gap ≠ "") (hoperand : IsToken operand)
    (hrest : Apart rest.toList) :
    parse (front ++ word ++ gap ++ operand ++ rest) = parse (word ++ " " ++ operand) := by
  have hlong : tokens (front ++ word ++ gap ++ operand ++ rest).toList =
      word.toList :: operand.toList :: tokens rest.toList := by
    have hapart : Apart (gap.toList ++ (operand.toList ++ rest.toList)) :=
      hgap.apart_append (by simpa using hne) _
    simp only [String.toList_append, List.append_assoc]
    rw [hfront.tokens_append, (hword.stands hapart).tokens_append, hgap.tokens_append,
      (hoperand.stands hrest).tokens_append]
  have hshort : tokens (word ++ " " ++ operand).toList = [word.toList, operand.toList] := by
    simpa [String.toList_append] using hword.tokens_append_space hoperand
  rw [parse, parse, ofLine, ofLine, hlong, hshort]
  rfl

/-- A line is read by its tokens, which are the longest runs of characters other than the five
separators, from left to right. Without a token it is blank; if the first one names a mode, it
selects this mode; and otherwise the first token is its word and the second one, if there is one,
its operand. Separators in front, between and behind make no difference, and neither does what
follows the second token. Every character that is no separator is part of a token, in particular
the blanks that are not among the five. -/
theorem parse_exact :
    (∀ c, isSeparator c = true ↔ c ∈ [' ', '\t', '\n', '\x0c', '\r']) ∧
    (∀ text : String,
      (parse text = .blank ↔ ∀ word place, ¬StandsAt word place text.toList) ∧
      ∃ words, InOrder words text ∧ (∀ others, InOrder others text → others = words) ∧
        (parse text = .mode .stack ↔ words.head? = some "stack") ∧
        (parse text = .mode .queue ↔ words.head? = some "queue") ∧
        ∀ word operand?, parse text = .op word operand? ↔
          words.head? = some word ∧ (word ≠ "stack" ∧ word ≠ "queue") ∧ words[1]? = operand?) ∧
    (∀ front line back : String, Blank front.toList → Blank back.toList →
      parse (front ++ line ++ back) = parse line) ∧
    (∀ front word gap operand rest : String, Blank front.toList → IsToken word →
      Blank gap.toList → gap ≠ "" → IsToken operand → Apart rest.toList →
      parse (front ++ word ++ gap ++ operand ++ rest) = parse (word ++ " " ++ operand)) ∧
    (∀ text word operand?, parse text = .op word operand? →
      IsToken word ∧ ∀ operand ∈ operand?, IsToken operand) ∧
    (∀ (text : String) (place : Nat) (c : Char), text.toList[place]? = some c →
      isSeparator c = false →
      ∃ start word, StandsAt word start text.toList ∧
        start ≤ place ∧ place < start + word.length) ∧
    ∀ c ∈ ['\x0b', '\u0085', '\u00a0', '\u2028'], isSeparator c = false := by
  refine ⟨fun c => isSeparator_iff, ?_, ?_, ?_, ?_, ?_, by simp [isSeparator]⟩
  · intro text
    refine ⟨parse_eq_blank_iff, _, inOrder_iff.mpr rfl, fun others h => inOrder_iff.mp h,
      ofTokens_eq_mode_iff, ofTokens_eq_mode_iff, ?_⟩
    intro word operand?
    rw [parse, ofLine, ofTokens_eq_op_iff]
    have hnames : (∀ mode : Mode, word ≠ mode.name) ↔ word ≠ "stack" ∧ word ≠ "queue" := by
      constructor
      · intro h
        exact ⟨h .stack, h .queue⟩
      · rintro ⟨hstack, hqueue⟩ (_ | _)
        · exact hstack
        · exact hqueue
    rw [hnames]
  · intro front line back hfront hback
    exact parse_surrounded hfront hback
  · intro front word gap operand rest hfront hword hgap hne hoperand hrest
    exact parse_of_two_tokens hfront hword hgap hne hoperand hrest
  · intro text word operand? h
    have hreadable := readable_ofLine text.toList
    rw [← parse, h] at hreadable
    exact ⟨hreadable.1, hreadable.2.2⟩
  · intro text place c h hc
    exact exists_standsAt h hc

/-- Carriage returns and form feeds divide a line, and a vertical tab is part of a token. -/
theorem parse_exact_vertical_tab :
    parse "\t push\r\x0c7\x0b8 rest" = .op "push" (some "7\x0b8") ∧
      parse "\n queue\t" = .mode .queue ∧
      IsToken "7\x0b8" ∧
      ∃ start word, StandsAt word start "7\x0b8 rest".toList ∧
        start ≤ 1 ∧ 1 < start + word.length := by
  obtain ⟨-, -, hsurrounded, htwo, htokens, hplaces, -⟩ := parse_exact
  have hparse : parse "\t push\r\x0c7\x0b8 rest" = .op "push" (some "7\x0b8") := by
    have hpush : IsToken "push" := by decide
    have hoperand : IsToken "7\x0b8" := by decide
    exact (htwo "\t " "push" "\r\x0c" "7\x0b8" " rest" (by decide) hpush
      (by decide) (by decide) hoperand (by decide)).trans
      (by decide)
  refine ⟨hparse, ?_, (htokens _ _ _ hparse).2 _ rfl, hplaces _ 1 '\x0b' (by decide) (by decide)⟩
  exact (hsurrounded "\n " "queue" "\t" (by decide) (by decide)).trans
    (by decide)

end Statement

end StackQueue
