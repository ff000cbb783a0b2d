import StackQueue.CommandLine.Request
import StackQueue.Proofs.Reference.Reading
import StackQueue.Proofs.Text.Cutting
import StackQueue.Proofs.Text.Decoding

/-!
# Lines and tokens of octets

Newlines and separators are ASCII characters, and decoding neither swallows one nor makes one up.
So the lines and tokens of a decoded text can be found in the octets and decoded one by one.
-/

namespace StackQueue

namespace Octets

/-- The octet of a newline. -/
def newline : UInt8 := 0x0A

/-- The octets of the characters that stand between tokens. -/
def isSeparator (octet : UInt8) : Bool :=
  octet = 0x20 || octet = 0x09 || octet = newline || octet = 0x0C || octet = 0x0D

/-- The lines of octets: what the newlines separate, less an empty piece behind the last one. -/
def lines (content : Octets) : List Octets :=
  if (content.splitOn newline).getLast? = some [] then (content.splitOn newline).dropLast
  else content.splitOn newline

/-- The tokens of a line of octets. -/
def tokens (line : Octets) : List Octets :=
  (line.splitOnP isSeparator).filter fun piece => !piece.isEmpty

end Octets

namespace Utf8

variable {octets : Octets}

theorem decode_eq_nil_iff : decode octets = [] ↔ octets = [] := by
  constructor
  · intro h
    have hcut : Decodes octets [] := decodes_iff.mpr h.symm
    cases hcut
    rfl
  · rintro rfl
    rfl

/-- Decoding makes no ASCII character up. -/
theorem mem_of_mem_decode {c : Char} (h : c ∈ decode octets) (hc : c.toNat < 0x80) :
    UInt8.ofNat c.toNat ∈ octets := by
  have hcut : Decodes octets (decode octets) := decodes_iff.mpr rfl
  generalize decode octets = chars at h hcut
  induction hcut with
  | nil => cases h
  | character d tail ih =>
      rcases List.mem_cons.mp h with rfl | h
      · rw [Reference.utf8EncodeChar_of_lt hc]
        exact List.mem_append_left _ List.mem_cons_self
      · exact List.mem_append_right _ (ih h)
  | replaced hpiece tail ih =>
      rcases List.mem_cons.mp h with rfl | h
      · exact absurd hc (by decide)
      · exact List.mem_append_right _ (ih h)

/-- A test that only ASCII characters pass, and the same test of octets. -/
structure SameTest (p : Char → Bool) (q : UInt8 → Bool) : Prop where
  char_lt : ∀ c, p c = true → c.toNat < 0x80
  octet_lt : ∀ octet, q octet = true → octet < 0x80
  eq_of_lt : ∀ n < 0x80, q (.ofNat n) = p (.ofNat n)

theorem sameTest_newline : SameTest (· == '\n') (· == Octets.newline) where
  char_lt c h := by
    rw [beq_iff_eq.mp h]
    decide
  octet_lt octet h := by
    rw [beq_iff_eq.mp h]
    decide
  eq_of_lt := by decide +kernel

theorem sameTest_separator : SameTest Text.isSeparator Octets.isSeparator where
  char_lt c h := by
    simp only [Text.isSeparator, Bool.or_eq_true, decide_eq_true_eq] at h
    obtain (((rfl | rfl) | rfl) | rfl) | rfl := h <;> decide
  octet_lt octet h := by
    simp only [Octets.isSeparator, Bool.or_eq_true, decide_eq_true_eq] at h
    obtain (((rfl | rfl) | rfl) | rfl) | rfl := h <;> decide
  eq_of_lt := by decide +kernel

variable {p : Char → Bool} {q : UInt8 → Bool}

/-- Decoding and splitting at ASCII characters can be done in either order. -/
theorem SameTest.map_decode_splitOnP (h : SameTest p q) (octets : Octets) :
    (octets.splitOnP q).map decode = (decode octets).splitOnP p := by
  by_cases hsplit : ∃ octet ∈ octets, q octet = true
  · obtain ⟨octet, hmem, hq⟩ := hsplit
    obtain ⟨before, others, rfl⟩ := List.append_of_mem hmem
    have hlt := h.octet_lt octet hq
    have hp : p (Char.ofNat octet.toNat) = true := by
      rw [← h.eq_of_lt _ (UInt8.lt_iff_toNat_lt.mp hlt), UInt8.ofNat_toNat, hq]
    rw [decode_append_cons hlt, List.splitOnP_append_cons _ _ hq, List.splitOnP_append_cons _ _ hp,
      List.map_append, h.map_decode_splitOnP before, h.map_decode_splitOnP others]
  · have hq (octet : UInt8) (hmem : octet ∈ octets) : q octet = false :=
      Bool.eq_false_iff.mpr fun hq => hsplit ⟨octet, hmem, hq⟩
    have hp (c : Char) (hmem : c ∈ decode octets) : p c = false := by
      rw [Bool.eq_false_iff]
      intro hp
      have hlt := h.char_lt c hp
      have hoctet := hq _ (mem_of_mem_decode hmem hlt)
      rw [h.eq_of_lt _ hlt, Char.ofNat_toNat, hp] at hoctet
      cases hoctet
    rw [List.splitOnP_eq_singleton hq, List.splitOnP_eq_singleton hp, List.map_singleton]
termination_by octets.length

end Utf8

namespace Octets

open Utf8

/-- The lines of a decoded text are the decoded lines. -/
theorem map_decode_lines (content : Octets) :
    (lines content).map decode = Text.lines (decode content) := by
  have hpieces : (content.splitOn newline).map decode = (decode content).splitOn '\n' :=
    sameTest_newline.map_decode_splitOnP content
  have hlast : (content.splitOn newline).getLast? = some [] ↔
      ((decode content).splitOn '\n').getLast? = some [] := by
    rw [← hpieces, List.getLast?_map, Option.map_eq_some_iff]
    simp only [decode_eq_nil_iff, exists_eq_right]
  rw [Reference.text_lines_eq, Reference.lines_eq, lines]
  by_cases h : (content.splitOn newline).getLast? = some []
  · rw [if_pos h, if_pos (hlast.mp h), List.map_dropLast, hpieces]
  · rw [if_neg h, if_neg (mt hlast.mpr h), hpieces]

/-- The tokens of a decoded line are the decoded tokens. -/
theorem map_decode_tokens (line : Octets) :
    (tokens line).map decode = Text.tokens (decode line) := by
  have hempty : (fun piece : List Char => !piece.isEmpty) ∘ decode =
      fun piece : Octets => !piece.isEmpty := by
    funext piece
    rw [Function.comp_apply, Bool.eq_iff_iff]
    simp [decode_eq_nil_iff]
  rw [Text.tokens, ← sameTest_separator.map_decode_splitOnP, List.filter_map, hempty, tokens]

theorem map_decode_tokens_lines (content : Octets) :
    (lines content).map (fun line => (tokens line).map decode) =
      (Text.lines (decode content)).map Text.tokens := by
  simp only [map_decode_tokens]
  rw [← map_decode_lines, List.map_map]
  rfl

end Octets

/-! ### Cutting behind a line -/

section Cut

variable {α : Type} [DecidableEq α] {a : α}

/-- The part of a list up to the occurrence number `count` of an element, or all of it if it has
fewer. -/
def upTo (a : α) : Nat → List α → List α
  | 0, _ => []
  | _ + 1, [] => []
  | count + 1, b :: list => b :: upTo a (if b = a then count else count + 1) list

theorem upTo_zero (list : List α) : upTo a 0 list = [] := by
  cases list <;> rfl

theorem upTo_of_not_mem {list : List α} (h : a ∉ list) (count : Nat) :
    upTo a (count + 1) list = list := by
  induction list with
  | nil => rfl
  | cons b list ih =>
      have hb := List.ne_of_not_mem_cons h
      rw [upTo, if_neg hb.symm, ih (List.not_mem_of_not_mem_cons h)]

theorem upTo_append_cons {first : List α} (h : a ∉ first) (count : Nat) (rest : List α) :
    upTo a (count + 1) (first ++ a :: rest) = first ++ a :: upTo a count rest := by
  induction first with
  | nil => rw [List.nil_append, upTo, if_pos rfl, List.nil_append]
  | cons b first ih =>
      have hb := List.ne_of_not_mem_cons h
      rw [List.cons_append, upTo, if_neg hb.symm, ih (List.not_mem_of_not_mem_cons h),
        List.cons_append]

end Cut

namespace Text

theorem firstLines_eq_upTo (count : Nat) (text : List Char) :
    firstLines count text = upTo '\n' count text := by
  induction text generalizing count with
  | nil => cases count <;> rfl
  | cons c text ih =>
      cases count with
      | zero => rfl
      | succ count => rw [firstLines, upTo, ih]

end Text

namespace Octets

open Utf8

/-- The part of a file up to its newline number `count`, or all of it if it has fewer. -/
def firstLines (count : Nat) (content : Octets) : Octets :=
  upTo newline count content

theorem newline_not_mem_decode {line : Octets} (h : newline ∉ line) : '\n' ∉ decode line := by
  intro hmem
  exact h (mem_of_mem_decode hmem (by decide))

/-- A file that is cut behind a line is decoded to the text that is cut behind this line. -/
theorem decode_firstLines (count : Nat) (content : Octets) :
    decode (firstLines count content) = Text.firstLines count (decode content) := by
  rw [Text.firstLines_eq_upTo, firstLines]
  induction count generalizing content with
  | zero => rw [upTo_zero, upTo_zero, decode_nil]
  | succ count ih =>
      by_cases hmem : newline ∈ content
      · obtain ⟨first, rest, rfl, hfirst⟩ := List.eq_append_cons_of_mem hmem
        have hdecode (others : Octets) :
            decode (first ++ newline :: others) = decode first ++ '\n' :: decode others :=
          decode_append_cons (by decide) first others
        rw [upTo_append_cons hfirst, hdecode, hdecode, ih,
          upTo_append_cons (newline_not_mem_decode hfirst)]
      · rw [upTo_of_not_mem hmem, upTo_of_not_mem (newline_not_mem_decode hmem)]

end Octets

end StackQueue
