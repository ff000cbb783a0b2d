import StackQueue.Proofs.Run.Chronicle
import StackQueue.Proofs.Run.FirstFailure
import StackQueue.Proofs.Text.Writing

/-!
# What a diagnostic says of a line

A run that fails says one thing of one line of its program, and what it says is true. The line that
is named exists, its first word is one of which such a thing can be said, exactly one complaint
fits, and the diagnostic is a single line of text whatever characters the program holds.

## Implementation notes

Words and wordings are spelled out here, so they are compared with those of opcodes and failures
and not copied from them.
-/

namespace StackQueue

/-- The things that can be said of a line. -/
inductive Complaint where
  /-- The first word is no instruction. -/
  | unknownWord
  /-- There is no integer to insert. -/
  | noInteger
  /-- There is nothing to print as a decimal. -/
  | emptyPint
  /-- There is nothing to remove. -/
  | emptyPop
  /-- Two values are needed. -/
  | tooShort
  /-- The divisor is zero. -/
  | zeroDivisor
  /-- The front value is no character. -/
  | noCharacter
  /-- There is nothing to print as a character. -/
  | emptyPchar
  deriving DecidableEq

namespace Complaint

/-- The words of the instruction language. -/
def instructionWords : List String :=
  ["push", "pall", "pint", "pop", "nop", "swap", "add", "sub", "div", "mul", "mod", "pchar", "pstr",
    "rotl", "rotr"]

/-- The first words of lines of which a thing can be said. -/
def Suits (word : String) : Complaint → Prop
  | unknownWord =>
      word ∉ instructionWords ∧ word ≠ "stack" ∧ word ≠ "queue" ∧ word.toList.head? ≠ some '#'
  | noInteger => word = "push"
  | emptyPint => word = "pint"
  | emptyPop => word = "pop"
  | tooShort => word ∈ ["swap", "add", "sub", "div", "mul", "mod"]
  | zeroDivisor => word = "div" ∨ word = "mod"
  | noCharacter | emptyPchar => word = "pchar"

instance (word : String) : DecidablePred (Suits word)
  | unknownWord => inferInstanceAs (Decidable (_ ∧ _ ∧ _ ∧ _))
  | noInteger | emptyPint | emptyPop | noCharacter | emptyPchar =>
      inferInstanceAs (Decidable (_ = _))
  | tooShort => inferInstanceAs (Decidable (_ ∈ _))
  | zeroDivisor => inferInstanceAs (Decidable (_ ∨ _))

/-- The complaints in the order of their definition. -/
def all : List Complaint :=
  [unknownWord, noInteger, emptyPint, emptyPop, tooShort, zeroDivisor, noCharacter, emptyPchar]

theorem mem_all (complaint : Complaint) : complaint ∈ all := by
  cases complaint <;> decide

/-- A remark that names the line of which it is made. -/
def located (line : Nat) (remark : String) : String :=
  "L" ++ toString line ++ ": " ++ remark

/-- What is said of a line with the given first word. -/
def wording (line : Nat) (word : String) : Complaint → String
  | unknownWord => located line ("unknown instruction " ++ word)
  | noInteger => located line "usage: push integer"
  | emptyPint => located line "can't pint, stack empty"
  | emptyPop => located line "can't pop an empty stack"
  | tooShort => located line ("can't " ++ word ++ ", stack too short")
  | zeroDivisor => "Division by zero"
  | noCharacter => located line "can't pchar, value out of range"
  | emptyPchar => located line "can't pchar, stack empty"

variable {line : Nat} {word : String} {complaint other : Complaint}

/-! ### At most one complaint fits -/

/-- Of a word that is no instruction only this can be said. -/
theorem eq_unknownWord (h : complaint.Suits word) (hword : word ∉ instructionWords) :
    complaint = unknownWord := by
  by_contra hne
  apply hword
  cases complaint with
  | unknownWord => exact absurd rfl hne
  | tooShort =>
      exact (by decide : ∀ word ∈ ["swap", "add", "sub", "div", "mul", "mod"],
        word ∈ instructionWords) word h
  | zeroDivisor => rcases h with rfl | rfl <;> decide
  | noInteger | emptyPint | emptyPop | noCharacter | emptyPchar =>
      obtain rfl := h
      decide

theorem located_injective {remark remark' : String}
    (h : located line remark = located line remark') : remark = remark' :=
  (String.append_right_inj _).mp h

/-- A remark that names a line does not read like the one that names none. -/
theorem located_ne_division (line : Nat) (remark : String) :
    located line remark ≠ "Division by zero" := by
  intro h
  have hhead := congrArg (fun text : String => text.toList.head?) h
  simp [located] at hhead

/-- The only words of which two things can be said are two words of arithmetic and one of
printing. -/
theorem eq_or_ambiguous (h : complaint.Suits word) (hother : other.Suits word) :
    complaint = other ∨
      (complaint, other) ∈ [(tooShort, zeroDivisor), (zeroDivisor, tooShort),
        (noCharacter, emptyPchar), (emptyPchar, noCharacter)] := by
  by_cases hword : word ∈ instructionWords
  · have hall : ∀ word ∈ instructionWords, ∀ complaint ∈ all, ∀ other ∈ all,
        complaint.Suits word → other.Suits word → complaint = other ∨
          (complaint, other) ∈ [(tooShort, zeroDivisor), (zeroDivisor, tooShort),
            (noCharacter, emptyPchar), (emptyPchar, noCharacter)] := by
      decide +kernel
    exact hall word hword complaint (mem_all complaint) other (mem_all other) h hother
  · left
    rw [eq_unknownWord h hword, eq_unknownWord hother hword]

/-- What is said of a line tells which complaint it is. -/
theorem eq_of_wording_eq (h : complaint.Suits word) (hother : other.Suits word)
    (hwording : complaint.wording line word = other.wording line word) : complaint = other := by
  rcases eq_or_ambiguous h hother with heq | hpair
  · exact heq
  · simp only [List.mem_cons, Prod.mk.injEq, List.not_mem_nil, or_false] at hpair
    rcases hpair with ⟨rfl, rfl⟩ | ⟨rfl, rfl⟩ | ⟨rfl, rfl⟩ | ⟨rfl, rfl⟩
    · exact absurd hwording (located_ne_division _ _)
    · exact absurd hwording.symm (located_ne_division _ _)
    · exact absurd (located_injective hwording) (by decide)
    · exact absurd (located_injective hwording) (by decide)

/-! ### Diagnostics are single lines -/

/-- A text in which no separators but spaces stand. -/
def OnOneLine (text : String) : Prop :=
  ∀ c ∈ text.toList, Text.isSeparator c = true → c = ' '

instance : DecidablePred OnOneLine :=
  fun text => decidable_of_iff
    ((text.toList.all fun c => !Text.isSeparator c || decide (c = ' ')) = true)
    (by simp [OnOneLine, Decidable.imp_iff_not_or])

theorem OnOneLine.append {first second : String} (h : OnOneLine first) (h' : OnOneLine second) :
    OnOneLine (first ++ second) := by
  rw [OnOneLine, String.toList_append, List.forall_mem_append]
  exact ⟨h, h'⟩

theorem onOneLine_of_isToken (h : Text.IsToken word) : OnOneLine word := by
  intro c hc hseparator
  rw [h.2 c hc] at hseparator
  cases hseparator

theorem onOneLine_located {remark : String} (h : OnOneLine remark) (line : Nat) :
    OnOneLine (located line remark) := by
  have hline : OnOneLine (toString line) := by
    rw [← Decimal.text_natCast]
    exact onOneLine_of_isToken (Decimal.isToken_text line)
  exact (((by decide : OnOneLine "L").append hline).append (by decide)).append h

/-- What is said of a line is said on one line, whatever characters its first word holds. -/
theorem onOneLine_wording (h : Text.IsToken word) (line : Nat) (complaint : Complaint) :
    OnOneLine (complaint.wording line word) := by
  have hword := onOneLine_of_isToken h
  cases complaint with
  | unknownWord => exact onOneLine_located ((by decide : OnOneLine _).append hword) line
  | tooShort =>
      exact onOneLine_located (((by decide : OnOneLine _).append hword).append (by decide)) line
  | zeroDivisor => exact (by decide : OnOneLine "Division by zero")
  | noInteger | emptyPint | emptyPop | noCharacter | emptyPchar =>
      exact onOneLine_located (by decide) line

/-- What stands on one line is followed by the only newline of a diagnostic. -/
theorem OnOneLine.newline_last {text : String} (h : OnOneLine text) :
    (text ++ "\n").toList.count '\n' = 1 ∧ (text ++ "\n").toList.getLast? = some '\n' ∧
      '\r' ∉ (text ++ "\n").toList ∧ '\t' ∉ (text ++ "\n").toList ∧
      '\x0c' ∉ (text ++ "\n").toList := by
  have hne {c : Char} (hseparator : Text.isSeparator c = true) (hspace : c ≠ ' ') :
      c ∉ text.toList := fun hc => hspace (h c hc hseparator)
  have htext : (text ++ "\n").toList = text.toList ++ ['\n'] := String.toList_append
  have hother {c : Char} (hseparator : Text.isSeparator c = true) (hspace : c ≠ ' ')
      (hnewline : c ≠ '\n') : c ∉ (text ++ "\n").toList := by
    rw [htext, List.mem_append, List.mem_singleton, not_or]
    exact ⟨hne hseparator hspace, hnewline⟩
  refine ⟨?_, ?_, hother (by decide) (by decide) (by decide),
    hother (by decide) (by decide) (by decide), hother (by decide) (by decide) (by decide)⟩
  · rw [htext, List.count_append, List.count_eq_zero_of_not_mem (hne (by decide) (by decide)),
      List.count_singleton_self]
  · rw [htext, List.getLast?_concat]

/-! ### Failures are complaints -/

/-- The wording of a failure is that of a complaint that suits the word. -/
def Fits (line : Nat) (word : String) (failure : Failure) : Prop :=
  ∃ complaint : Complaint, complaint.Suits word ∧ failure.message = complaint.wording line word

theorem atLine_eq_located (line : Nat) (remark : String) :
    Failure.atLine line remark = located line remark := by
  rw [Failure.atLine, located, Decimal.text_natCast]

theorem fits_perform {instruction : Instruction} {mode : Mode} {s : Sequence} {failure : Failure}
    (h : (instruction.perform mode line s).1 = .error failure) :
    Fits line instruction.opcode.name failure := by
  cases instruction with
  | push value =>
      rw [Instruction.perform_push] at h
      cases h
  | pall | nop | pstr | rotl | rotr => cases h
  | pint =>
      simp only [Instruction.perform] at h
      split at h
      · cases h
        exact ⟨emptyPint, rfl, atLine_eq_located line _⟩
      · cases h
  | pop =>
      simp only [Instruction.perform] at h
      split at h
      · cases h
        exact ⟨emptyPop, rfl, atLine_eq_located line _⟩
      · cases h
  | swap =>
      simp only [Instruction.perform] at h
      split at h
      · cases h
        exact ⟨tooShort, by decide, atLine_eq_located line _⟩
      · cases h
  | arith op =>
      simp only [Instruction.perform] at h
      split at h
      · cases h
        exact ⟨tooShort, by cases op <;> decide, atLine_eq_located line _⟩
      · split at h
        · next hnone =>
            cases h
            obtain ⟨rfl | rfl, -⟩ := Operator.apply_eq_none_iff.mp hnone
            · exact ⟨zeroDivisor, Or.inl rfl, rfl⟩
            · exact ⟨zeroDivisor, Or.inr rfl, rfl⟩
        · cases h
  | pchar =>
      simp only [Instruction.perform] at h
      split at h
      · cases h
        exact ⟨emptyPchar, rfl, atLine_eq_located line _⟩
      · split at h
        · cases h
        · cases h
          exact ⟨noCharacter, rfl, atLine_eq_located line _⟩

/-- A word that is no opcode is none of the words of the instruction language. -/
theorem suits_unknownWord (hopcode : Opcode.ofName? word = none)
    (hcomment : Instruction.isComment word = false) (hmode : Mode.ofName? word = none) :
    unknownWord.Suits word := by
  refine ⟨?_, ?_, ?_, ?_⟩
  · intro hword
    exact (by decide : ∀ word ∈ instructionWords, Opcode.ofName? word ≠ none) word hword hopcode
  · rintro rfl
    cases hmode
  · rintro rfl
    cases hmode
  · simpa [Instruction.isComment] using hcomment

theorem fits_resolve {operand? : Option String} {failure : Failure}
    (h : Instruction.resolve word operand? line = .error failure)
    (hmode : Mode.ofName? word = none) : Fits line word failure := by
  obtain ⟨rfl, hopcode, hcomment⟩ | ⟨rfl, rfl, -⟩ := Instruction.resolve_eq_error_iff.mp h
  · exact ⟨unknownWord, suits_unknownWord hopcode hcomment hmode, atLine_eq_located line _⟩
  · exact ⟨noInteger, rfl, atLine_eq_located line _⟩

end Complaint

namespace Machine

open Complaint

variable {m : Machine} {line : Nat} {failure : Failure}

/-- A line that fails for another reason than the output has a first word, and the complaint suits
it. -/
theorem fits_step {text : List Char}
    (h : (m.step line (Statement.ofLine text)).failure? = some failure) (hne : failure ≠ .output) :
    ∃ word ∈ (Text.tokens text).head?.map String.ofList,
      Text.IsToken word ∧ Fits line word failure := by
  cases htokens : Text.tokens text with
  | nil =>
      rw [Statement.ofLine, htokens] at h
      cases h
  | cons token others =>
      have htoken : Text.IsToken (String.ofList token) :=
        Text.isToken_of_mem_tokens (by rw [htokens]; exact List.mem_cons_self)
      refine ⟨String.ofList token, rfl, htoken, ?_⟩
      rw [ofLine_of_tokens htokens] at h
      cases hmode : Mode.ofName? (String.ofList token) with
      | some selected =>
          rw [hmode] at h
          simp only [step_mode] at h
          cases h
      | none =>
          rw [hmode] at h
          simp only [step] at h
          cases hresolve : Instruction.resolve (String.ofList token)
              (others.head?.map String.ofList) line with
          | error cause =>
              rw [dispatch_of_error hresolve] at h
              cases h
              exact fits_resolve hresolve hmode
          | ok instruction? =>
              cases instruction? with
              | none =>
                  rw [dispatch_of_comment hresolve] at h
                  cases h
              | some instruction =>
                  rw [dispatch_of_instruction hresolve] at h
                  rw [Instruction.name_of_resolve hresolve]
                  obtain ⟨cause, hperform, hexecute⟩ | ⟨printed, hexecute⟩ | ⟨printed, hexecute⟩ :=
                    execute_cases m line instruction
                  · rw [hexecute] at h
                    cases h
                    exact fits_perform hperform
                  · rw [hexecute] at h
                    cases h
                  · rw [hexecute] at h
                    cases h
                    exact absurd rfl hne

end Machine

namespace Run

open Complaint

variable {source : String} {sink : Sink} {failure : Failure}

/-- The first word of the line with the given number. -/
def firstWord? (line : Nat) (source : String) : Option String :=
  (Text.lines source.toList)[line - 1]?.bind fun text =>
    (Text.tokens text).head?.map String.ofList

/-- Lines that fail for another reason than the output fail because of one of them, and the
complaint suits its first word. -/
theorem exists_fits_of_body (h : (body source sink).failure? = some failure)
    (hne : failure ≠ .output) :
    ∃ line word, failure.line? = some line ∧ 1 ≤ line ∧ firstWord? line source = some word ∧
      Text.IsToken word ∧ Fits line word failure := by
  obtain ⟨before, line, statement, later, hsource, -, hfailing⟩ := Machine.exists_of_failure h
  rw [Statement.numbered_eq] at hsource
  obtain ⟨text, htext, hline, rfl⟩ := Statement.exists_of_numberedFrom_eq_append hsource
  obtain ⟨word, hword, htoken, hfits⟩ := Machine.fits_step hfailing hne
  refine ⟨line, word, Machine.line?_of_step hfailing hne, by omega, ?_, htoken, hfits⟩
  rw [firstWord?, hline, Nat.add_sub_cancel_left, htext]
  exact hword

/-- A program that fails on an output that takes everything blames one of its lines, and exactly
one complaint suits the first word of this line and reads as the diagnostic does. The diagnostic
is a single line that ends with its only newline, whatever characters the program holds. -/
theorem diagnostic_suits_blamed_line {source : String}
    (h : (ofSource source Sink.unbounded).status = 1) :
    let run := ofSource source Sink.unbounded
    ∃ line word, run.blamedLine? = some line ∧ 1 ≤ line ∧ firstWord? line source = some word ∧
      (∃! complaint : Complaint, complaint.Suits word ∧
        run.diagnostic = complaint.wording line word ++ "\n") ∧
      run.diagnostic.toList.count '\n' = 1 ∧ run.diagnostic.toList.getLast? = some '\n' ∧
      '\r' ∉ run.diagnostic.toList ∧ '\t' ∉ run.diagnostic.toList ∧
      '\x0c' ∉ run.diagnostic.toList := by
  intro run
  obtain ⟨failure, hfailure⟩ := status_eq_one_iff.mp h
  have hbody := hfailure
  rw [failure?_ofSource_unbounded] at hbody
  obtain ⟨line, word, hline, hpos, hword, htoken, complaint, hsuits, hmessage⟩ :=
    exists_fits_of_body hbody (ne_output_of_body hbody)
  have hdiagnostic : run.diagnostic = complaint.wording line word ++ "\n" := by
    rw [diagnostic, hfailure, ← hmessage]
    rfl
  refine ⟨line, word, ?_, hpos, hword, ⟨complaint, ⟨hsuits, hdiagnostic⟩, ?_⟩, ?_⟩
  · rw [blamedLine?, hfailure]
    exact hline
  · rintro other ⟨hother, hwording⟩
    rw [hdiagnostic] at hwording
    exact eq_of_wording_eq hother hsuits ((String.append_left_inj _).mp hwording.symm)
  · rw [hdiagnostic]
    exact (onOneLine_wording htoken line complaint).newline_last

/-- A vertical tab and a line separator from beyond ASCII belong to the word that is blamed. -/
theorem diagnostic_suits_blamed_line_unknown :
    let source := "queue\r\n\t\x0bpop\u2028 1\x0c\npop"
    let word := "\x0bpop\u2028"
    let run := ofSource source Sink.unbounded
    run.status = 1 ∧ run.blamedLine? = some 2 ∧ firstWord? 2 source = some word ∧
      ∃! complaint : Complaint, complaint.Suits word ∧
        run.diagnostic = complaint.wording 2 word ++ "\n" := by
  intro source word run
  have hstatus : run.status = 1 := by decide +kernel
  have hblamed : run.blamedLine? = some 2 := by decide +kernel
  have hfirst : firstWord? 2 source = some word := by decide +kernel
  obtain ⟨line, word', hline, -, hword, hcomplaint, -⟩ := diagnostic_suits_blamed_line hstatus
  obtain rfl := Option.some.inj (hblamed.symm.trans hline)
  obtain rfl := Option.some.inj (hfirst.symm.trans hword)
  exact ⟨hstatus, hblamed, hfirst, hcomplaint⟩

end Run

end StackQueue
