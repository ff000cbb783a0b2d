import Mathlib.Data.List.Infix
import StackQueue.Proofs.Reference.Printing
import StackQueue.Text.Utf8

/-!
# What decoding with replacement means

Decoding is described without a machine: a list of octets is cut into encodings of characters and
ill-formed pieces. A piece is ill-formed if no character is encoded where it starts, and it is as
long as it can be: it stops in front of the first octet with which it begins no character. There is
exactly one such cut, and the decoder finds it.

## Implementation notes

A decoder inside a character has read a piece that begins exactly the characters with certain
codes. That is kept as the invariant of a pending character, so the bounds of the next octet tell
which pieces can still be completed.
-/

namespace StackQueue.Utf8

open String (utf8EncodeChar)

/-! ### The cut -/

/-- A piece that becomes one replacement character where `rest` follows it. -/
structure IllFormed (piece rest : List UInt8) : Prop where
  nonempty : piece ≠ []
  /-- No character is encoded where the piece starts. -/
  unconvertible : ∀ c, ¬ utf8EncodeChar c <+: piece ++ rest
  /-- It is the beginning of a character or a single octet. -/
  subpart : (∃ c, piece <+: utf8EncodeChar c) ∨ piece.length = 1
  /-- Nothing longer is the beginning of a character. -/
  maximal : ∀ longer c, longer <+: piece ++ rest → longer <+: utf8EncodeChar c →
    longer.length ≤ piece.length

/-- The text of octets: well-formed sequences are decoded exactly, ill-formed pieces are
replaced. -/
inductive Decodes : List UInt8 → List Char → Prop where
  | nil : Decodes [] []
  | character (c : Char) {rest : List UInt8} {chars : List Char} (tail : Decodes rest chars) :
      Decodes (utf8EncodeChar c ++ rest) (c :: chars)
  | replaced {piece rest : List UInt8} {chars : List Char} (h : IllFormed piece rest)
      (tail : Decodes rest chars) : Decodes (piece ++ rest) (replacement :: chars)

variable {octets piece rest : List UInt8} {octet : UInt8} {chars : List Char} {c : Char}

/-- An octet that begins no character is an ill-formed piece by itself. -/
theorem illFormed_singleton (h : ∀ c, ¬ [octet] <+: utf8EncodeChar c) (rest : List UInt8) :
    IllFormed [octet] rest := by
  have hlonger (longer : List UInt8) (c : Char) (hlonger : longer <+: [octet] ++ rest)
      (hc : longer <+: utf8EncodeChar c) : longer = [] := by
    cases longer with
    | nil => rfl
    | cons first others =>
        obtain ⟨rfl, -⟩ := List.cons_prefix_cons.mp hlonger
        exact absurd ((List.prefix_append [first] others).trans hc) (h c)
  refine ⟨List.cons_ne_nil _ _, ?_, .inr rfl, ?_⟩
  · intro c hc
    exact String.utf8EncodeChar_ne_nil (hlonger _ c hc (List.prefix_refl _))
  · intro longer c hprefix hc
    rw [hlonger longer c hprefix hc]
    exact Nat.zero_le _

/-- The beginning of a character that no character continues is an ill-formed piece. -/
theorem illFormed_of_prefix (hne : piece ≠ []) (hpiece : piece <+: utf8EncodeChar c)
    (hincomplete : ∀ c, ¬ utf8EncodeChar c <+: piece)
    (hnext : ∀ octet ∈ rest.head?, ∀ c, ¬ piece ++ [octet] <+: utf8EncodeChar c) :
    IllFormed piece rest := by
  have hmaximal (longer : List UInt8) (c : Char) (hlonger : longer <+: piece ++ rest)
      (hc : longer <+: utf8EncodeChar c) : longer.length ≤ piece.length := by
    by_contra hlength
    cases rest with
    | nil => exact hlength (by simpa using hlonger.length_le)
    | cons octet rest =>
        have hcons : piece ++ [octet] <+: longer := by
          rw [List.append_cons] at hlonger
          apply List.prefix_of_prefix_length_le (List.prefix_append _ _) hlonger
          rw [List.length_append]
          exact Nat.lt_of_not_le hlength
        exact hnext octet rfl c (hcons.trans hc)
  refine ⟨hne, ?_, .inl ⟨c, hpiece⟩, hmaximal⟩
  intro c hc
  have hlength := hmaximal _ c hc (List.prefix_refl _)
  exact hincomplete c (List.prefix_of_prefix_length_le hc (List.prefix_append _ _) hlength)

/-! ### Octets of a character -/

/-- The first octet of the character with the code `n`. -/
def firstOctet (n : Nat) : Nat :=
  if n < 0x80 then n
  else if n < 0x800 then 0xC0 + n / 0x40
  else if n < 0x10000 then 0xE0 + n / 0x1000
  else 0xF0 + n / 0x40000

/-- The number of octets behind the first one. -/
def continuations (n : Nat) : Nat :=
  if n < 0x80 then 0
  else if n < 0x800 then 1
  else if n < 0x10000 then 2
  else 3

/-- The last `count` octets of the character with the code `n`. -/
def lastOctets : Nat → Nat → List UInt8
  | 0, _ => []
  | count + 1, n => .ofNat (0x80 + n / 0x40 ^ count % 0x40) :: lastOctets count n

theorem length_lastOctets (count n : Nat) : (lastOctets count n).length = count := by
  induction count with
  | zero => rfl
  | succ count ih => rw [lastOctets, List.length_cons, ih]

theorem firstOctet_cases (n : Nat) :
    (n < 0x80 ∧ continuations n = 0 ∧ firstOctet n = n) ∨
    (0x80 ≤ n ∧ n < 0x800 ∧ continuations n = 1 ∧ firstOctet n = 0xC0 + n / 0x40) ∨
    (0x800 ≤ n ∧ n < 0x10000 ∧ continuations n = 2 ∧ firstOctet n = 0xE0 + n / 0x1000) ∨
    (0x10000 ≤ n ∧ continuations n = 3 ∧ firstOctet n = 0xF0 + n / 0x40000) := by
  unfold continuations firstOctet
  split_ifs <;> omega

/-- A character is encoded by its first octet and as many others as its code needs. -/
theorem utf8EncodeChar_eq (c : Char) : utf8EncodeChar c =
    .ofNat (firstOctet c.toNat) :: lastOctets (continuations c.toNat) c.toNat := by
  have hvalid : c.toNat.isValidChar := c.valid
  have hcode : c.val.toNat = c.toNat := rfl
  unfold utf8EncodeChar
  rw [hcode]
  generalize c.toNat = n at hvalid
  obtain ⟨h, hcount, hfirst⟩ | ⟨h, h', hcount, hfirst⟩ | ⟨h, h', hcount, hfirst⟩ |
    ⟨h, hcount, hfirst⟩ := firstOctet_cases n
  · rw [hcount, hfirst, if_pos (by omega)]
    rfl
  · have hbits : n / 64 % 32 = n / 64 := by omega
    rw [hcount, hfirst, if_neg (by omega), if_pos (by omega), hbits]
    simp [lastOctets, Nat.add_comm]
  · have hbits : n / 4096 % 16 = n / 4096 := by omega
    rw [hcount, hfirst, if_neg (by omega), if_neg (by omega), if_pos (by omega), hbits]
    simp [lastOctets, Nat.add_comm]
  · have hbits : n / 262144 % 8 = n / 262144 := by omega
    rw [hcount, hfirst, if_neg (by omega), if_neg (by omega), if_neg (by omega), hbits]
    simp [lastOctets, Nat.add_comm]

theorem toNat_ofNat_firstOctet {n : Nat} (h : n.isValidChar) :
    (UInt8.ofNat (firstOctet n)).toNat = firstOctet n := by
  have hcases := firstOctet_cases n
  rw [UInt8.toNat_ofNat']
  omega

/-- A first octet settles with which octet a character begins. -/
theorem singleton_prefix_iff (octet : UInt8) (c : Char) :
    [octet] <+: utf8EncodeChar c ↔ firstOctet c.toNat = octet.toNat := by
  rw [utf8EncodeChar_eq, List.cons_prefix_cons, ← UInt8.toNat_inj,
    toNat_ofNat_firstOctet (n := c.toNat) c.valid]
  exact ⟨fun h => h.1.symm, fun h => ⟨h.symm, List.nil_prefix⟩⟩

theorem exists_toNat_eq {n : Nat} (h : n.isValidChar) : ∃ c : Char, c.toNat = n :=
  ⟨.ofNatAux n h, rfl⟩

/-! ### Classes of first octets -/

/-- The codes of the characters that a pending character can become. -/
def Pending.Covers (pending : Pending) (n : Nat) : Prop :=
  n / 0x40 ^ (pending.more + 1) = pending.bits ∧
    pending.low.toNat ≤ 0x80 + n / 0x40 ^ pending.more % 0x40 ∧
    0x80 + n / 0x40 ^ pending.more % 0x40 ≤ pending.high.toNat

/-- A first octet that begins exactly the characters that a pending character can become. -/
structure Opens (octet : UInt8) (pending : Pending) : Prop where
  low_le_high : pending.low.toNat ≤ pending.high.toNat
  high_le : pending.high.toNat ≤ 0xBF
  covers_iff : ∀ n, pending.Covers n ↔ n.isValidChar ∧ firstOctet n = octet.toNat
  continuations_eq : ∀ n, pending.Covers n → continuations n = pending.more + 1

theorem utf8EncodeChar_of_lead (h : lead octet = .single c) : utf8EncodeChar c = [octet] := by
  have hlt : octet.toNat < 0x80 := by
    revert h
    fun_cases lead octet with
    | case1 hlt => exact fun _ => UInt8.lt_iff_toNat_lt.mp hlt
    | _ => exact fun h => nomatch h
  rw [lead, if_pos (UInt8.lt_iff_toNat_lt.mpr hlt)] at h
  obtain ⟨d, hd⟩ := exists_toNat_eq (n := octet.toNat) (.inl (by omega))
  have hc : c = d := by
    rw [← Lead.single.inj h, ← hd, Char.ofNat_toNat]
  have hoctet : d.toUInt8 = octet := by
    calc d.toUInt8 = .ofNat d.toNat := rfl
      _ = octet := by rw [hd, UInt8.ofNat_toNat]
  rw [hc, Reference.utf8EncodeChar_of_lt (hd ▸ hlt), hoctet]

theorem not_prefix_of_lead (h : lead octet = .invalid) (c : Char) :
    ¬ [octet] <+: utf8EncodeChar c := by
  have hvalid : c.toNat.isValidChar := c.valid
  have hcases := firstOctet_cases c.toNat
  rw [singleton_prefix_iff]
  revert h
  fun_cases lead octet
  all_goals
    intro h
    cases h
  all_goals
    simp only [UInt8.lt_iff_toNat_lt, ← UInt8.toNat_inj, UInt8.reduceToNat] at *
    omega

/-- The bounds behind `E0`, `ED`, `F0` and `F4` leave out what is no character or is written
shorter. -/
theorem opens_of_lead {pending : Pending} (h : lead octet = .multiple pending) :
    Opens octet pending := by
  revert h
  fun_cases lead octet
  all_goals
    intro h
    simp only [Lead.multiple.injEq, reduceCtorEq] at h
  all_goals
    subst h
    simp only [UInt8.lt_iff_toNat_lt, ← UInt8.toNat_inj, UInt8.reduceToNat] at *
    constructor
    · simp only [UInt8.reduceToNat]; omega
    · simp only [UInt8.reduceToNat]; omega
    all_goals
      intro n
      have hcases := firstOctet_cases n
      simp only [Pending.Covers, UInt8.reduceToNat]
      omega

/-! ### Pieces that have been begun -/

theorem eq_of_utf8EncodeChar_append {c d : Char} {others : List UInt8}
    (h : utf8EncodeChar c ++ rest = utf8EncodeChar d ++ others) : c = d := by
  have hdecode (c : Char) (rest : List UInt8) :
      (utf8EncodeChar c ++ rest).toByteArray.utf8DecodeChar? 0 = some c := by
    rw [List.toByteArray_append]
    exact ByteArray.utf8DecodeChar?_utf8EncodeChar_append
  apply Option.some.inj
  rw [← hdecode c rest, h, hdecode d others]

/-- A pending character, and the piece that has been read of it: it begins the characters that can
still be read. -/
structure Begun (piece : List UInt8) (pending : Pending) : Prop where
  nonempty : piece ≠ []
  low_le_high : pending.low.toNat ≤ pending.high.toNat
  high_le : pending.high.toNat ≤ 0xBF
  valid : ∀ n, pending.Covers n → n.isValidChar
  encode_eq : ∀ c, pending.Covers c.toNat →
    utf8EncodeChar c = piece ++ lastOctets (pending.more + 1) c.toNat
  covers : ∀ c, piece <+: utf8EncodeChar c → pending.Covers c.toNat

theorem Opens.begun {pending : Pending} (h : Opens octet pending) : Begun [octet] pending := by
  refine ⟨List.cons_ne_nil _ _, h.low_le_high, h.high_le, ?_, ?_, ?_⟩
  · intro n hn
    exact ((h.covers_iff n).mp hn).1
  · intro c hc
    rw [utf8EncodeChar_eq, ((h.covers_iff _).mp hc).2, h.continuations_eq _ hc, UInt8.ofNat_toNat]
    rfl
  · intro c hc
    exact (h.covers_iff _).mpr ⟨c.valid, (singleton_prefix_iff octet c).mp hc⟩

namespace Begun

variable {pending : Pending}

theorem exists_covers (h : Begun piece pending) : ∃ c : Char, pending.Covers c.toNat := by
  have hlow : 0x80 ≤ pending.low.toNat := pending.continuation
  have hhigh := h.high_le
  have hbounds := h.low_le_high
  have hcovers : pending.Covers
      ((pending.bits * 0x40 + (pending.low.toNat - 0x80)) * 0x40 ^ pending.more) := by
    have hpos : 0 < 0x40 ^ pending.more := Nat.pow_pos (by decide)
    rw [Pending.Covers, Nat.pow_succ, ← Nat.div_div_eq_div_mul, Nat.mul_div_cancel _ hpos]
    omega
  obtain ⟨c, hc⟩ := exists_toNat_eq (h.valid _ hcovers)
  exact ⟨c, hc ▸ hcovers⟩

/-- No character is complete yet. -/
theorem incomplete (h : Begun piece pending) (c : Char) : ¬ utf8EncodeChar c <+: piece := by
  rintro ⟨back, rfl⟩
  obtain ⟨d, hd⟩ := h.exists_covers
  have hencode := h.encode_eq d hd
  have hprefix : utf8EncodeChar d ++ [] =
      utf8EncodeChar c ++ (back ++ lastOctets (pending.more + 1) d.toNat) := by
    rw [List.append_nil, hencode, List.append_assoc]
  have hcd : d = c := eq_of_utf8EncodeChar_append hprefix
  have hlength := congrArg List.length hencode
  rw [hcd] at hlength
  simp only [List.length_append, length_lastOctets] at hlength
  omega

/-- The octet behind the piece in a character that continues it. -/
theorem covers_of_append (h : Begun piece pending) (hc : piece ++ [octet] <+: utf8EncodeChar c) :
    pending.Covers c.toNat ∧ octet.toNat = 0x80 + c.toNat / 0x40 ^ pending.more % 0x40 := by
  have hcovers := h.covers c ((List.prefix_append _ _).trans hc)
  rw [h.encode_eq c hcovers, List.prefix_append_right_inj, lastOctets,
    List.cons_prefix_cons] at hc
  refine ⟨hcovers, ?_⟩
  rw [hc.1, UInt8.toNat_ofNat']
  omega

/-- A piece becomes a replacement character where an octet follows that is out of bounds, and where
nothing follows. -/
theorem illFormed (h : Begun piece pending)
    (hnext : ∀ octet ∈ rest.head?, ¬ (pending.low ≤ octet ∧ octet ≤ pending.high)) :
    IllFormed piece rest := by
  obtain ⟨c, hc⟩ := h.exists_covers
  have hpiece : piece <+: utf8EncodeChar c := by
    rw [h.encode_eq c hc]
    exact List.prefix_append _ _
  apply illFormed_of_prefix h.nonempty hpiece h.incomplete
  intro octet hoctet d hd
  obtain ⟨⟨-, hlow, hhigh⟩, heq⟩ := h.covers_of_append hd
  rw [← heq] at hlow hhigh
  exact hnext octet hoctet ⟨UInt8.le_iff_toNat_le.mpr hlow, UInt8.le_iff_toNat_le.mpr hhigh⟩

variable {bits more : Nat} {low high : UInt8} {continuation : 0x80 ≤ low}

/-- An octet within the bounds completes a character. -/
theorem complete (h : Begun piece ⟨bits, 0, low, high, continuation⟩) (hlow : low ≤ octet)
    (hhigh : octet ≤ high) :
    utf8EncodeChar (Char.ofNat (bits * 64 + (octet.toNat - 0x80))) = piece ++ [octet] := by
  have hcontinuation : 0x80 ≤ low.toNat := continuation
  have hle : high.toNat ≤ 0xBF := h.high_le
  rw [UInt8.le_iff_toNat_le] at hlow hhigh
  have hcovers : Pending.Covers ⟨bits, 0, low, high, continuation⟩
      (bits * 64 + (octet.toNat - 0x80)) := by
    simp only [Pending.Covers]
    omega
  obtain ⟨c, hc⟩ := exists_toNat_eq (h.valid _ hcovers)
  rw [← hc] at hcovers
  have hoctet : 0x80 + c.toNat / 0x40 ^ 0 % 0x40 = octet.toNat := by
    omega
  rw [← hc, Char.ofNat_toNat, h.encode_eq c hcovers, lastOctets, lastOctets, hoctet,
    UInt8.ofNat_toNat]

/-- Otherwise an octet within the bounds makes the piece longer. -/
theorem next (h : Begun piece ⟨bits, more + 1, low, high, continuation⟩) (hlow : low ≤ octet)
    (hhigh : octet ≤ high) :
    Begun (piece ++ [octet])
      ⟨bits * 64 + (octet.toNat - 0x80), more, 0x80, 0xBF, by decide⟩ := by
  have hcontinuation : 0x80 ≤ low.toNat := continuation
  have hle : high.toNat ≤ 0xBF := h.high_le
  rw [UInt8.le_iff_toNat_le] at hlow hhigh
  have hcovers (n : Nat) :
      Pending.Covers ⟨bits * 64 + (octet.toNat - 0x80), more, 0x80, 0xBF, by decide⟩ n ↔
        Pending.Covers ⟨bits, more + 1, low, high, continuation⟩ n ∧
          octet.toNat = 0x80 + n / 0x40 ^ (more + 1) % 0x40 := by
    have hpow : n / 0x40 ^ (more + 1 + 1) = n / 0x40 ^ (more + 1) / 0x40 := by
      rw [Nat.pow_succ _ (more + 1), Nat.div_div_eq_div_mul]
    simp only [Pending.Covers, hpow, UInt8.reduceToNat]
    omega
  refine ⟨by simp, by simp, by simp, ?_, ?_, ?_⟩
  · intro n hn
    exact h.valid n ((hcovers n).mp hn).1
  · intro c hc
    obtain ⟨hbefore, hoctet⟩ := (hcovers _).mp hc
    rw [h.encode_eq c hbefore, lastOctets, ← hoctet, UInt8.ofNat_toNat, List.append_assoc]
    rfl
  · intro c hc
    exact (hcovers _).mpr (h.covers_of_append hc)

end Begun

/-! ### The decoder makes the cut -/

/-- The characters of octets that follow a pending character, or none. -/
def decodeFrom (pending? : Option Pending) (octets : List UInt8) : List Char :=
  (octets.foldl Decoder.push ⟨#[], pending?⟩).finish.toList

/-- A decoder that has completed a character puts it in front of the others. -/
theorem decodeFrom_push (c : Char) (pending? : Option Pending) (octets : List UInt8) :
    (octets.foldl Decoder.push ⟨#[c], pending?⟩).finish.toList =
      c :: decodeFrom pending? octets := by
  have hprepend : (⟨#[c], pending?⟩ : Decoder) = Decoder.prepend #[c] ⟨#[], pending?⟩ := rfl
  rw [hprepend, Decoder.foldl_push_prepend, Decoder.finish_prepend]
  simp [decodeFrom]

theorem decodeFrom_cons_none (octet : UInt8) (octets : List UInt8) :
    decodeFrom none (octet :: octets) =
      match lead octet with
      | .single c => c :: decodeFrom none octets
      | .multiple pending => decodeFrom (some pending) octets
      | .invalid => replacement :: decodeFrom none octets := by
  rw [decodeFrom, List.foldl_cons, Decoder.push, Decoder.begin]
  cases lead octet with
  | single c => exact decodeFrom_push c none octets
  | multiple pending => rfl
  | invalid => exact decodeFrom_push replacement none octets

section Pending

variable {bits more : Nat} {low high : UInt8} {continuation : 0x80 ≤ low}

theorem decodeFrom_of_bounds_zero (hlow : low ≤ octet) (hhigh : octet ≤ high)
    (octets : List UInt8) :
    decodeFrom (some ⟨bits, 0, low, high, continuation⟩) (octet :: octets) =
      Char.ofNat (bits * 64 + (octet.toNat - 0x80)) :: decodeFrom none octets := by
  rw [decodeFrom, List.foldl_cons, Decoder.push, if_pos (by simp [hlow, hhigh])]
  exact decodeFrom_push _ none octets

theorem decodeFrom_of_bounds_succ (hlow : low ≤ octet) (hhigh : octet ≤ high)
    (octets : List UInt8) :
    decodeFrom (some ⟨bits, more + 1, low, high, continuation⟩) (octet :: octets) =
      decodeFrom (some ⟨bits * 64 + (octet.toNat - 0x80), more, 0x80, 0xBF, by decide⟩)
        octets := by
  rw [decodeFrom, List.foldl_cons, Decoder.push, if_pos (by simp [hlow, hhigh])]
  rfl

theorem decodeFrom_of_not_bounds (h : ¬ (low ≤ octet ∧ octet ≤ high)) (octets : List UInt8) :
    decodeFrom (some ⟨bits, more, low, high, continuation⟩) (octet :: octets) =
      replacement :: decodeFrom none (octet :: octets) := by
  rw [decodeFrom, List.foldl_cons, Decoder.push, if_neg (by simpa using h)]
  exact decodeFrom_push replacement none (octet :: octets)

end Pending

/-- The decoder makes a cut, also where it continues a piece that has been begun. -/
theorem decodes_decodeFrom (rest : List UInt8) :
    Decodes rest (decodeFrom none rest) ∧ ∀ piece pending, Begun piece pending →
      Decodes (piece ++ rest) (decodeFrom (some pending) rest) := by
  induction rest with
  | nil =>
      refine ⟨.nil, ?_⟩
      intro piece pending h
      exact .replaced (h.illFormed (by simp)) .nil
  | cons octet rest ih =>
      obtain ⟨hidle, hpending⟩ := ih
      have hbegin : Decodes (octet :: rest) (decodeFrom none (octet :: rest)) := by
        rw [decodeFrom_cons_none]
        cases hlead : lead octet with
        | single c =>
            have hcharacter := Decodes.character c hidle
            rwa [utf8EncodeChar_of_lead hlead] at hcharacter
        | multiple pending => exact hpending [octet] pending (opens_of_lead hlead).begun
        | invalid => exact .replaced (illFormed_singleton (not_prefix_of_lead hlead) rest) hidle
      refine ⟨hbegin, ?_⟩
      rintro piece ⟨bits, more, low, high, continuation⟩ h
      by_cases hbounds : low ≤ octet ∧ octet ≤ high
      · obtain ⟨hlow, hhigh⟩ := hbounds
        rw [List.append_cons]
        cases more with
        | zero =>
            rw [decodeFrom_of_bounds_zero hlow hhigh, ← h.complete hlow hhigh]
            exact .character _ hidle
        | succ more =>
            rw [decodeFrom_of_bounds_succ hlow hhigh]
            exact hpending _ _ (h.next hlow hhigh)
      · -- The octet ends the piece, and is read anew as it would be between characters.
        rw [decodeFrom_of_not_bounds hbounds]
        apply Decodes.replaced (h.illFormed _) hbegin
        rintro _ ⟨⟩
        exact hbounds

theorem length_le_of_illFormed {other others : List UInt8} (h : IllFormed piece rest)
    (h' : IllFormed other others) (heq : piece ++ rest = other ++ others) :
    other.length ≤ piece.length := by
  rcases h'.subpart with ⟨c, hc⟩ | hlength
  · apply h.maximal other c _ hc
    rw [heq]
    exact List.prefix_append _ _
  · rw [hlength]
    exact List.length_pos_of_ne_nil h.nonempty

/-- There is only one cut. -/
theorem Decodes.unique {others : List Char} (h : Decodes octets chars)
    (h' : Decodes octets others) : chars = others := by
  induction h generalizing others with
  | nil =>
      generalize hnil : ([] : List UInt8) = octets at h'
      cases h' with
      | nil => rfl
      | character c tail =>
          exact absurd (List.append_eq_nil_iff.mp hnil.symm).1 String.utf8EncodeChar_ne_nil
      | replaced hpiece tail =>
          exact absurd (List.append_eq_nil_iff.mp hnil.symm).1 hpiece.nonempty
  | @character c rest chars tail ih =>
      generalize hcut : utf8EncodeChar c ++ rest = octets at h'
      cases h' with
      | nil => exact absurd (List.append_eq_nil_iff.mp hcut).1 String.utf8EncodeChar_ne_nil
      | character d tail' =>
          obtain rfl := eq_of_utf8EncodeChar_append hcut
          obtain rfl := List.append_cancel_left hcut
          rw [ih tail']
      | replaced hpiece tail' =>
          exact absurd (hcut ▸ List.prefix_append _ _) (hpiece.unconvertible c)
  | @replaced piece rest chars hpiece tail ih =>
      generalize hcut : piece ++ rest = octets at h'
      cases h' with
      | nil => exact absurd (List.append_eq_nil_iff.mp hcut).1 hpiece.nonempty
      | character c tail' =>
          exact absurd (hcut ▸ List.prefix_append _ _) (hpiece.unconvertible c)
      | replaced hother tail' =>
          have hlength := Nat.le_antisymm (length_le_of_illFormed hother hpiece hcut.symm)
            (length_le_of_illFormed hpiece hother hcut)
          obtain ⟨-, rfl⟩ := List.append_inj hcut hlength
          rw [ih tail']

/-- Octets are decoded exactly as they are cut. -/
theorem decodes_iff : Decodes octets chars ↔ chars = decode octets := by
  have hdecode : Decodes octets (decode octets) := (decodes_decodeFrom octets).1
  constructor
  · intro h
    exact h.unique hdecode
  · rintro rfl
    exact hdecode

-- A character that is cut short is one piece; each octet of an overlong form is one by itself.
example : decode [0xE2, 0x82, 0x28, 0xC0, 0x80] = ['\ufffd', '(', '\ufffd', '\ufffd'] := by
  decide +kernel

end StackQueue.Utf8
