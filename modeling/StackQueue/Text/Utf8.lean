/-!
# UTF-8 with replacement

Octets are read as UTF-8. Well-formed sequences are decoded exactly, and every maximal ill-formed
piece, that is, the longest part of a sequence that could still have been completed, or a single
octet that cannot start one, becomes one replacement character U+FFFD. So every list of octets has
a text. An ASCII octet stands for itself wherever it is, so what is before it and what is behind it
are decoded apart.

## Implementation notes

The decoder reads one octet at a time. Between characters it is idle; inside one it remembers the
bits collected, how many octets are still to come, and the bounds of the next octet. The bounds
of the octet after a first octet `E0`, `ED`, `F0` or `F4` are narrower than those of the others,
which excludes overlong forms, surrogates and codes above U+10FFFF. An octet that is out of bounds
ends the piece before it and is then read anew.
-/

namespace StackQueue.Utf8

/-- The character that stands for an ill-formed piece. -/
def replacement : Char := '\ufffd'

/-- A character that has been begun. -/
structure Pending where
  /-- The bits collected so far. -/
  bits : Nat
  /-- The number of octets after the next one. -/
  more : Nat
  /-- The least octet that may come next. -/
  low : UInt8
  /-- The greatest octet that may come next. -/
  high : UInt8
  /-- Nothing below the continuation octets may come next. -/
  continuation : 0x80 ≤ low
  deriving DecidableEq

/-- What a first octet begins. -/
inductive Lead where
  /-- A character of one octet. -/
  | single (c : Char)
  /-- A longer character. -/
  | multiple (pending : Pending)
  /-- No character at all. -/
  | invalid
  deriving DecidableEq

/-- Classify the first octet of a character. -/
def lead (octet : UInt8) : Lead :=
  if octet < 0x80 then .single (Char.ofNat octet.toNat)
  else if octet < 0xC2 then .invalid
  else if octet < 0xE0 then .multiple ⟨octet.toNat - 0xC0, 0, 0x80, 0xBF, by decide⟩
  else if octet = 0xE0 then .multiple ⟨0, 1, 0xA0, 0xBF, by decide⟩
  else if octet = 0xED then .multiple ⟨0xD, 1, 0x80, 0x9F, by decide⟩
  else if octet < 0xF0 then .multiple ⟨octet.toNat - 0xE0, 1, 0x80, 0xBF, by decide⟩
  else if octet = 0xF0 then .multiple ⟨0, 2, 0x90, 0xBF, by decide⟩
  else if octet < 0xF4 then .multiple ⟨octet.toNat - 0xF0, 2, 0x80, 0xBF, by decide⟩
  else if octet = 0xF4 then .multiple ⟨4, 2, 0x80, 0x8F, by decide⟩
  else .invalid

/-- A decoder after some octets: the characters that are complete, and one that may be begun. -/
structure Decoder where
  /-- The complete characters. -/
  decoded : Array Char
  /-- The character begun, if there is one. -/
  pending : Option Pending

namespace Decoder

/-- The decoder before the first octet. -/
def idle : Decoder :=
  ⟨#[], none⟩

/-- Read an octet between characters. -/
def begin (decoded : Array Char) (octet : UInt8) : Decoder :=
  match lead octet with
  | .single c => ⟨decoded.push c, none⟩
  | .multiple pending => ⟨decoded, some pending⟩
  | .invalid => ⟨decoded.push replacement, none⟩

/-- Read an octet. -/
def push (decoder : Decoder) (octet : UInt8) : Decoder :=
  match decoder with
  | ⟨decoded, none⟩ => begin decoded octet
  | ⟨decoded, some ⟨bits, more, low, high, _⟩⟩ =>
      if low ≤ octet && octet ≤ high then
        let bits := bits * 64 + (octet.toNat - 0x80)
        match more with
        | 0 => ⟨decoded.push (Char.ofNat bits), none⟩
        | more + 1 => ⟨decoded, some ⟨bits, more, 0x80, 0xBF, by decide⟩⟩
      else
        begin (decoded.push replacement) octet

/-- The characters when no octet follows: one that is only begun is ill-formed. -/
def finish (decoder : Decoder) : Array Char :=
  match decoder with
  | ⟨decoded, none⟩ => decoded
  | ⟨decoded, some _⟩ => decoded.push replacement

end Decoder

/-- The characters of a list of octets. -/
def decode (octets : List UInt8) : List Char :=
  (octets.foldl Decoder.push Decoder.idle).finish.toList

/-- The text of a list of octets. -/
def text (octets : List UInt8) : String :=
  String.ofList (decode octets)

/-- The octets of a text. -/
def octets (text : String) : List UInt8 :=
  text.toUTF8.toList

namespace Decoder

/-- Put characters in front of those that a decoder has completed. -/
def prepend (before : Array Char) (decoder : Decoder) : Decoder :=
  ⟨before ++ decoder.decoded, decoder.pending⟩

/-- What an octet does between characters does not depend on the characters before. -/
theorem begin_append (before decoded : Array Char) (octet : UInt8) :
    begin (before ++ decoded) octet = (begin decoded octet).prepend before := by
  unfold begin
  split <;> simp [prepend]

/-- What an octet does never depends on the characters before. -/
theorem push_prepend (before : Array Char) (decoder : Decoder) (octet : UInt8) :
    (decoder.prepend before).push octet = (decoder.push octet).prepend before := by
  obtain ⟨decoded, _ | ⟨bits, more, low, high, _⟩⟩ := decoder
  · exact begin_append before decoded octet
  · simp only [prepend, push]
    split
    · cases more <;> simp
    · rw [Array.push_append]
      exact begin_append before (decoded.push replacement) octet

/-- What octets do never depends on the characters before. -/
theorem foldl_push_prepend (before : Array Char) (decoder : Decoder) (octets : List UInt8) :
    octets.foldl push (decoder.prepend before) = (octets.foldl push decoder).prepend before := by
  induction octets generalizing decoder with
  | nil => rfl
  | cons octet octets ih => rw [List.foldl_cons, push_prepend, ih, List.foldl_cons]

/-- The characters before stay in front when no octet follows. -/
theorem finish_prepend (before : Array Char) (decoder : Decoder) :
    (decoder.prepend before).finish = before ++ decoder.finish := by
  obtain ⟨decoded, _ | pending⟩ := decoder <;> simp [prepend, finish]

/-- An ASCII octet ends whatever was begun and stands for itself. -/
theorem push_of_lt (decoder : Decoder) {octet : UInt8} (h : octet < 0x80) :
    decoder.push octet = ⟨decoder.finish.push (Char.ofNat octet.toNat), none⟩ := by
  obtain ⟨decoded, _ | ⟨bits, more, low, high, continuation⟩⟩ := decoder
  · simp [push, begin, lead, h, finish]
  · have hlow : ¬ low ≤ octet := by
      rw [UInt8.not_le]
      exact UInt8.lt_of_lt_of_le h continuation
    simp [push, begin, lead, h, hlow, finish]

end Decoder

/-- No octet, no character. -/
@[simp] theorem decode_nil : decode [] = [] := rfl

/-- An ASCII octet stands for itself everywhere, and what is before it is decoded apart from what
is behind it. -/
theorem decode_append_cons {octet : UInt8} (h : octet < 0x80) (before others : List UInt8) :
    decode (before ++ octet :: others) =
      decode before ++ Char.ofNat octet.toNat :: decode others := by
  have split : (before ++ octet :: others).foldl Decoder.push Decoder.idle =
      (others.foldl Decoder.push Decoder.idle).prepend
        ((before.foldl Decoder.push Decoder.idle).finish.push (Char.ofNat octet.toNat)) := by
    rw [List.foldl_append, List.foldl_cons, Decoder.push_of_lt _ h,
      ← Decoder.foldl_push_prepend]
    simp [Decoder.prepend, Decoder.idle]
  rw [decode, split, Decoder.finish_prepend]
  simp [decode]

end StackQueue.Utf8
