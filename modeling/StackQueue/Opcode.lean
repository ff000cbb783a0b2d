import StackQueue.Arithmetic

/-!
# Opcodes

The fifteen words that a program may use as the first word of an instruction line. They are
recognised character for character.
-/

namespace StackQueue

/-- The words of the instruction language. -/
inductive Opcode where
  | push | pall | pint | pop | nop | swap
  /-- An operation on the front two values. -/
  | arith (op : Operator)
  | pchar | pstr | rotl | rotr
  deriving DecidableEq

namespace Opcode

/-- Every opcode has one name, in lower case. -/
def name : Opcode → String
  | push => "push"
  | pall => "pall"
  | pint => "pint"
  | pop => "pop"
  | nop => "nop"
  | swap => "swap"
  | arith op => op.name
  | pchar => "pchar"
  | pstr => "pstr"
  | rotl => "rotl"
  | rotr => "rotr"

/-- The opcodes in the order in which they are looked up. -/
def all : List Opcode :=
  [push, pall, pint, pop, nop, swap, arith .add, arith .sub, arith .div, arith .mul, arith .mod,
    pchar, pstr, rotl, rotr]

/-- Look up the opcode that has exactly the given name. -/
def ofName? (word : String) : Option Opcode :=
  all.find? fun opcode => opcode.name = word

/-- The list of opcodes misses none. -/
theorem mem_all (opcode : Opcode) : opcode ∈ all := by
  cases opcode with
  | arith op => cases op <;> decide
  | _ => decide

/-- Different opcodes have different names. -/
theorem name_injective {a b : Opcode} (h : a.name = b.name) : a = b :=
  (by decide : ∀ a ∈ all, ∀ b ∈ all, a.name = b.name → a = b) a (mem_all a) b (mem_all b) h

/-- A word names an opcode exactly when it is that opcode's name. -/
theorem ofName?_eq_some_iff {word : String} {opcode : Opcode} :
    ofName? word = some opcode ↔ opcode.name = word := by
  constructor
  · intro h
    simpa using List.find?_some h
  · rintro rfl
    exact (by decide : ∀ a ∈ all, ofName? a.name = some a) opcode (mem_all opcode)

end Opcode

end StackQueue
