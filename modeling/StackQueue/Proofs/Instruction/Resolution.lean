import StackQueue.Mode
import StackQueue.Proofs.Instruction.Labels

/-!
# What words resolve to

A first word opens a comment, is one of fifteen names, or means nothing. It resolves to an
instruction exactly if it is the name of its opcode, where a `push` also needs an operand with a
value. Every other word fails in the name of its line, however close it comes to a name.
-/

namespace StackQueue

namespace Opcode

variable {word : String}

theorem ofName?_eq_none_iff : ofName? word = none ↔ ∀ code : Opcode, code.name ≠ word := by
  rw [Option.eq_none_iff_forall_ne_some]
  simp only [ne_eq, ofName?_eq_some_iff]

/-- No comment is the name of an opcode. -/
theorem isComment_name (code : Opcode) : Instruction.isComment code.name = false :=
  (by decide : ∀ code ∈ all, Instruction.isComment code.name = false) code (mem_all code)

end Opcode

namespace Instruction

variable {word : String} {operand? : Option String} {line : Nat} {instruction : Instruction}
  {failure : Failure}

/-- Only a `push` does not come from its opcode alone. -/
theorem ofOpcode?_opcode (h : ∀ value, instruction ≠ push value) :
    ofOpcode? instruction.opcode = some instruction := by
  cases instruction with
  | push value => exact absurd rfl (h value)
  | _ => rfl

theorem eq_push_of_opcode (h : instruction.opcode = .push) : ∃ value, instruction = push value := by
  cases instruction with
  | push value => exact ⟨value, rfl⟩
  | _ => cases h

theorem pushValue_eq_error_iff_forall :
    pushValue operand? line = .error failure ↔
      failure = .pushArgument line ∧ ∀ value, pushValue operand? line ≠ .ok value := by
  unfold pushValue
  cases operand?.bind Operand.value? <;> simp [eq_comm]

/-! ### The four kinds of first words -/

/-- An instruction without operand is what its name resolves to, whatever follows the name. -/
theorem resolve_name {code : Opcode} (h : ofOpcode? code = some instruction)
    (operand? : Option String) (line : Nat) :
    resolve code.name operand? line = .ok (some instruction) := by
  rw [resolve, code.isComment_name, if_neg Bool.false_ne_true,
    Opcode.ofName?_eq_some_iff.mpr rfl]
  simp only [h]

theorem resolve_push_name (operand? : Option String) (line : Nat) :
    resolve Opcode.push.name operand? line =
      (pushValue operand? line).map fun value => some (push value) := by
  rw [resolve, Opcode.push.isComment_name, if_neg Bool.false_ne_true,
    Opcode.ofName?_eq_some_iff.mpr rfl]
  rfl

theorem resolve_of_unknown (hcomment : isComment word = false) (hname : Opcode.ofName? word = none)
    (operand? : Option String) (line : Nat) :
    resolve word operand? line = .error (.unknownInstruction line word) := by
  rw [resolve, hcomment, if_neg Bool.false_ne_true, hname]

/-- What a first word can be. -/
inductive Kind : String → Prop
  | comment {word : String} (h : isComment word = true) : Kind word
  | push : Kind Opcode.push.name
  | plain {code : Opcode} {instruction : Instruction} (h : ofOpcode? code = some instruction) :
      Kind code.name
  | unknown {word : String} (hcomment : isComment word = false)
      (hname : Opcode.ofName? word = none) : Kind word

theorem kind (word : String) : Kind word := by
  cases hcomment : isComment word with
  | true => exact .comment hcomment
  | false =>
      cases hname : Opcode.ofName? word with
      | none => exact .unknown hcomment hname
      | some code =>
          obtain rfl := Opcode.ofName?_eq_some_iff.mp hname
          cases hcode : ofOpcode? code with
          | none =>
              obtain rfl := ofOpcode?_eq_none_iff.mp hcode
              exact .push
          | some instruction => exact .plain hcode

/-- Comments resolve to nothing, and only they do. -/
theorem resolve_eq_ok_none_iff : resolve word operand? line = .ok none ↔ isComment word = true := by
  cases kind word with
  | comment h => exact iff_of_true (by rw [resolve, if_pos h]) h
  | push =>
      rw [resolve_push_name, Opcode.push.isComment_name]
      cases pushValue operand? line <;> simp [Except.map]
  | @plain code _ h =>
      rw [resolve_name h, code.isComment_name]
      simp
  | unknown hcomment hname =>
      rw [resolve_of_unknown hcomment hname, hcomment]
      simp

/-- A word resolves to an instruction exactly if it names its opcode. A `push` has the value of the
operand. -/
theorem resolve_eq_ok_some_iff :
    resolve word operand? line = .ok (some instruction) ↔
      instruction.opcode.name = word ∧
        ∀ value, instruction = push value → pushValue operand? line = .ok value := by
  cases kind word with
  | comment h =>
      rw [resolve_eq_ok_none_iff.mpr h]
      refine iff_of_false (by simp) ?_
      rintro ⟨rfl, -⟩
      rw [Opcode.isComment_name] at h
      cases h
  | push =>
      rw [resolve_push_name]
      constructor
      · intro h
        cases hvalue : pushValue operand? line with
        | error failure =>
            rw [hvalue] at h
            cases h
        | ok value =>
            rw [hvalue] at h
            cases h
            exact ⟨rfl, fun _ heq => by cases heq; rfl⟩
      · rintro ⟨hname, hvalue⟩
        obtain ⟨value, rfl⟩ := eq_push_of_opcode (Opcode.name_injective hname)
        rw [hvalue value rfl]
        rfl
  | @plain code other h =>
      rw [resolve_name h]
      constructor
      · intro heq
        cases heq
        rw [opcode_of_ofOpcode? h]
        refine ⟨rfl, ?_⟩
        rintro value rfl
        rw [← opcode_of_ofOpcode? h] at h
        cases h
      · rintro ⟨hname, -⟩
        obtain rfl := Opcode.name_injective hname
        rw [ofOpcode?_opcode] at h
        · rw [h]
        · rintro value rfl
          cases h
  | unknown hcomment hname =>
      rw [resolve_of_unknown hcomment hname]
      refine iff_of_false (by simp) ?_
      rintro ⟨heq, -⟩
      exact Opcode.ofName?_eq_none_iff.mp hname _ heq

/-- A word fails to resolve exactly if it is no name, or if it is `push` and there is no value. -/
theorem resolve_eq_error_iff :
    resolve word operand? line = .error failure ↔
      (failure = .unknownInstruction line word ∧ Opcode.ofName? word = none ∧
        isComment word = false) ∨
      (failure = .pushArgument line ∧ word = Opcode.push.name ∧
        ∀ value, pushValue operand? line ≠ .ok value) := by
  cases kind word with
  | comment h =>
      rw [resolve_eq_ok_none_iff.mpr h, h]
      refine iff_of_false (by simp) ?_
      rintro (⟨-, -, hcomment⟩ | ⟨-, rfl, -⟩)
      · cases hcomment
      · cases h
  | push =>
      have hname : Opcode.ofName? Opcode.push.name = some .push := rfl
      rw [resolve_push_name, hname]
      cases hvalue : pushValue operand? line with
      | error cause =>
          obtain ⟨rfl, -⟩ := pushValue_eq_error_iff_forall.mp hvalue
          constructor
          · intro h
            cases h
            exact Or.inr ⟨rfl, rfl, fun value hok => by cases hok⟩
          · rintro (⟨-, hnone, -⟩ | ⟨rfl, -, -⟩)
            · cases hnone
            · rfl
      | ok value =>
          refine iff_of_false (fun h => by cases h) ?_
          rintro (⟨-, hnone, -⟩ | ⟨-, -, hne⟩)
          · cases hnone
          · exact hne value rfl
  | @plain code other h =>
      rw [resolve_name h]
      refine iff_of_false (by simp) ?_
      rintro (⟨-, hname, -⟩ | ⟨-, hname, -⟩)
      · exact Opcode.ofName?_eq_none_iff.mp hname code rfl
      · obtain rfl := Opcode.name_injective hname
        cases h
  | unknown hcomment hname =>
      rw [resolve_of_unknown hcomment hname]
      constructor
      · intro h
        cases h
        exact Or.inl ⟨rfl, hname, hcomment⟩
      · rintro (⟨rfl, -, -⟩ | ⟨-, rfl, -⟩)
        · rfl
        · exact absurd rfl (Opcode.ofName?_eq_none_iff.mp hname .push)

/-- A word that resolves to an instruction is the name of its opcode. -/
theorem name_of_resolve (h : resolve word operand? line = .ok (some instruction)) :
    word = instruction.opcode.name :=
  (resolve_eq_ok_some_iff.mp h).1.symm

/-- Resolving a word never blames the output. -/
theorem resolve_ne_output (word : String) (operand? : Option String) (line : Nat) :
    resolve word operand? line ≠ .error .output := by
  intro h
  rcases resolve_eq_error_iff.mp h with ⟨houtput, -⟩ | ⟨houtput, -⟩ <;> cases houtput

theorem resolve_push (value : Int32) (line : Nat) :
    resolve Opcode.push.name (some (Decimal.text value.toInt)) line = .ok (some (push value)) := by
  rw [resolve_eq_ok_some_iff]
  refine ⟨rfl, ?_⟩
  rintro _ ⟨rfl⟩
  rw [pushValue, Option.bind_some, Operand.value?_text]

/-! ### The table of words -/

/-- The words that need no operand, each with the instruction that it stands for. -/
def plainWords : List (String × Instruction) :=
  [("pall", pall), ("pint", pint), ("pop", pop), ("nop", nop), ("swap", swap), ("add", arith .add),
    ("sub", arith .sub), ("div", arith .div), ("mul", arith .mul), ("mod", arith .mod),
    ("pchar", pchar), ("pstr", pstr), ("rotl", rotl), ("rotr", rotr)]

/-- The words that stand for an instruction. -/
def names : List String :=
  "push" :: plainWords.map Prod.fst

/-- Words that come close to a name: no letters at all, a mode, other letter case, or a name with
other characters around it. -/
inductive Misspelt : String → Prop
  | empty : Misspelt ""
  | mode (selected : Mode) : Misspelt selected.name
  | letterCase {name word : String} (hname : name ∈ names) (hne : word ≠ name)
      (h : word.toList.map Char.toLower = name.toList) : Misspelt word
  | extended {name front back : String} (hname : name ∈ names) (hne : front ++ back ≠ "")
      (hcomment : front.toList.head? ≠ some '#') : Misspelt (front ++ name ++ back)

theorem names_eq : names = Opcode.all.map Opcode.name := rfl

theorem mem_names_iff : word ∈ names ↔ ∃ code : Opcode, code.name = word := by
  rw [names_eq, List.mem_map]
  simp only [Opcode.mem_all, true_and]

theorem plainWords_eq : plainWords = plain.map fun instruction =>
    (instruction.opcode.name, instruction) := rfl

theorem mem_plainWords_iff :
    (word, instruction) ∈ plainWords ↔
      instruction.opcode.name = word ∧ ∀ value, instruction ≠ push value := by
  have hplain : ∀ instruction ∈ plain, ∀ value, instruction ≠ push value := by
    rintro _ hmem value rfl
    obtain ⟨code, -, hcode⟩ := List.mem_filterMap.mp hmem
    obtain rfl := opcode_of_ofOpcode? hcode
    cases hcode
  simp only [plainWords_eq, List.mem_map, Prod.mk.injEq]
  constructor
  · rintro ⟨_, hmem, rfl, rfl⟩
    exact ⟨rfl, hplain _ hmem⟩
  · rintro ⟨hname, hne⟩
    refine ⟨instruction, ?_, hname, rfl⟩
    exact (eq_push_or_mem_plain instruction).resolve_left fun ⟨value, heq⟩ => hne value heq

theorem isComment_append {first : String} (hne : first ≠ "") (second : String) :
    isComment (first ++ second) = isComment first := by
  obtain ⟨c, rest, hfirst⟩ :=
    List.exists_cons_of_ne_nil (l := first.toList) (by simpa using hne)
  rw [isComment, isComment, String.toList_append, hfirst]
  rfl

theorem ne_empty_of_mem_names : ∀ name ∈ names, name ≠ "" := by
  decide

theorem toLower_name : ∀ name ∈ names, name.toList.map Char.toLower = name.toList := by
  decide

theorem eq_of_isInfix : ∀ name ∈ names, ∀ other ∈ names,
    name.toList <:+: other.toList → name = other := by
  decide +kernel

/-- A word that comes close to a name is none, and it opens no comment. -/
theorem Misspelt.unknown (h : Misspelt word) : word ∉ names ∧ isComment word = false := by
  cases h with
  | empty => decide
  | mode selected => cases selected <;> decide
  | @letterCase name _ hname hne h =>
      constructor
      · intro hmem
        exact hne (String.toList_inj.mp ((toLower_name word hmem).symm.trans h))
      · cases hcomment : isComment word with
        | false => rfl
        | true =>
            -- The number sign has no other case, so the name would begin with it.
            obtain ⟨rest, hrest⟩ := List.head?_eq_some_iff.mp (of_decide_eq_true hcomment)
            obtain ⟨code, rfl⟩ := mem_names_iff.mp hname
            have hname := code.isComment_name
            rw [isComment, ← h, hrest] at hname
            cases hname
  | @extended name front back hname hne hcomment =>
      constructor
      · intro hmem
        have heq := eq_of_isInfix name hname _ hmem ⟨front.toList, back.toList, by simp⟩
        have hlength := congrArg String.length heq
        simp only [String.length_append] at hlength
        apply hne
        rw [← String.length_eq_zero_iff, String.length_append]
        omega
      · by_cases hfront : front = ""
        · obtain ⟨code, rfl⟩ := mem_names_iff.mp hname
          rw [hfront, String.empty_append, isComment_append (ne_empty_of_mem_names _ hname),
            code.isComment_name]
        · rw [String.append_assoc, isComment_append hfront]
          simpa [isComment] using hcomment

/-- An opening number sign makes a comment of a word. Every other word resolves to an instruction
exactly if it stands in the table or is a `push` with a value, and then it is the name of the
opcode. A `push` without a value and a word outside the table fail in the name of the line, the
latter with the word itself. Words that merely come close to a name are outside the table. Every
instruction is found from the name of its opcode, and a `push` from this name and the decimal
notation of its value. -/
theorem resolve_exact (operand? : Option String) (line : Nat) :
    (∀ word, resolve word operand? line = .ok none ↔ word.toList.head? = some '#') ∧
    (∀ word instruction,
      (resolve word operand? line = .ok (some instruction) ↔
        (word, instruction) ∈ plainWords ∨
          ∃ value, pushValue operand? line = .ok value ∧
            word = "push" ∧ instruction = push value) ∧
      (resolve word operand? line = .ok (some instruction) → instruction.opcode.name = word)) ∧
    (∀ word failure, resolve word operand? line = .error failure ↔
      failure = .pushArgument line ∧ word = "push" ∧
          (operand? = none ∨ ∃ operand, operand? = some operand ∧
            ∀ value, pushValue (some operand) line ≠ .ok value) ∨
        failure = .unknownInstruction line word ∧
          word ∉ names ∧ word.toList.head? ≠ some '#') ∧
    (∀ word, Misspelt word →
      resolve word operand? line = .error (.unknownInstruction line word)) ∧
    (∀ value, resolve (push value).opcode.name (some (toString value.toInt)) line =
      .ok (some (push value))) ∧
    ∀ instruction, (∀ value, instruction ≠ push value) →
      resolve instruction.opcode.name operand? line = .ok (some instruction) := by
  refine ⟨?_, ?_, ?_, ?_, ?_, ?_⟩
  · intro word
    rw [resolve_eq_ok_none_iff, isComment, decide_eq_true_eq]
  · intro word instruction
    refine ⟨?_, fun h => (name_of_resolve h).symm⟩
    rw [resolve_eq_ok_some_iff, mem_plainWords_iff]
    constructor
    · rintro ⟨rfl, hvalue⟩
      by_cases hpush : ∃ value, instruction = push value
      · obtain ⟨value, rfl⟩ := hpush
        exact Or.inr ⟨value, hvalue value rfl, rfl, rfl⟩
      · exact Or.inl ⟨rfl, not_exists.mp hpush⟩
    · rintro (⟨rfl, hplain⟩ | ⟨value, hvalue, rfl, rfl⟩)
      · exact ⟨rfl, fun value heq => absurd heq (hplain value)⟩
      · refine ⟨rfl, ?_⟩
        rintro _ ⟨rfl⟩
        exact hvalue
  · intro word failure
    have hnone : Opcode.ofName? word = none ↔ word ∉ names := by
      rw [Opcode.ofName?_eq_none_iff, mem_names_iff, not_exists]
    have hcomment : isComment word = false ↔ word.toList.head? ≠ some '#' := by
      rw [isComment, decide_eq_false_iff_not]
    have hmissing : (∀ value, pushValue operand? line ≠ .ok value) ↔
        operand? = none ∨ ∃ operand, operand? = some operand ∧
          ∀ value, pushValue (some operand) line ≠ .ok value := by
      cases operand? with
      | none => simp [pushValue]
      | some operand => simp
    rw [resolve_eq_error_iff, hnone, hcomment, hmissing, or_comm]
    rfl
  · intro word h
    obtain ⟨hnames, hcomment⟩ := h.unknown
    apply resolve_of_unknown hcomment
    rw [Opcode.ofName?_eq_none_iff]
    exact fun code heq => hnames (mem_names_iff.mpr ⟨code, heq⟩)
  · intro value
    have htext : toString value.toInt = Decimal.text value.toInt := by
      rw [Decimal.text, ← Decimal.toList_toString, String.ofList_toList]
    rw [htext]
    exact resolve_push value line
  · intro instruction h
    exact resolve_name (ofOpcode?_opcode h) operand? line

/-- Capitals and a further letter make unknown words, and only `push` looks at what follows. -/
theorem resolve_exact_near_names :
    resolve "Push" (some "x") 7 = .error (.unknownInstruction 7 "Push") ∧
      resolve "mods" (some "x") 7 = .error (.unknownInstruction 7 "mods") ∧
      resolve "push" (some "x") 7 = .error (.pushArgument 7) ∧
      resolve "mod" (some "x") 7 = .ok (some (arith .mod)) := by
  obtain ⟨-, -, herror, hmisspelt, -, hname⟩ := resolve_exact (some "x") 7
  have hcase : Misspelt "Push" :=
    .letterCase (by decide : "push" ∈ names) (by decide) (by decide)
  have hextended : Misspelt "mods" :=
    .extended (by decide : "mod" ∈ names) (by decide : "" ++ "s" ≠ "") (by decide)
  have hvalue : pushValue (some "x") 7 = .error (.pushArgument 7) := rfl
  refine ⟨hmisspelt _ hcase, hmisspelt _ hextended, (herror _ _).mpr (Or.inl ⟨rfl, rfl, ?_⟩),
    hname (arith .mod) (by simp)⟩
  refine Or.inr ⟨"x", rfl, fun value h => ?_⟩
  rw [hvalue] at h
  cases h

end Instruction

end StackQueue
