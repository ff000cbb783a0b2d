import StackQueue.Proofs.Instruction.Printing
import StackQueue.Proofs.Run.Insertions
import StackQueue.Text.Utf8

/-!
# Reading printed values back

The values that a program prints all at once are the operands of a program that inserts them. With
the word `push` in front of each line, the printed text is a program that succeeds and leaves the
same values, reversed in stack mode and in order in queue mode. So sequences print the same text
exactly if they hold the same values.
-/

namespace StackQueue

namespace Utf8

/-- Seven-bit characters are read back from their octets. -/
theorem decode_map_toUInt8 {text : List Char} (h : ∀ c ∈ text, c.toNat < 128) :
    decode (text.map Char.toUInt8) = text := by
  induction text with
  | nil => rfl
  | cons c text ih =>
      obtain ⟨hc, htext⟩ := List.forall_mem_cons.mp h
      have hsplit := decode_append_cons (Printed.toUInt8_lt hc) [] (text.map Char.toUInt8)
      rw [List.nil_append, decode_nil, List.nil_append, Printed.toNat_toUInt8 hc, ih htext,
        Char.ofNat_toNat] at hsplit
      exact hsplit

end Utf8

namespace Decimal

theorem newline_not_mem_render (n : Int) : '\n' ∉ render n := by
  have htoken := (isToken_text n).newline_not_mem
  rwa [toList_text] at htoken

end Decimal

/-- The text of values, one decimal a line. -/
def decimals (values : List Int32) : List Char :=
  (values.map fun value => Decimal.render value.toInt).flatMap fun line => line ++ ['\n']

theorem lines_decimals (values : List Int32) :
    Text.lines (decimals values) = values.map fun value => Decimal.render value.toInt := by
  apply Text.lines_flatMap_newline
  intro line hline
  obtain ⟨value, -, rfl⟩ := List.mem_map.mp hline
  exact Decimal.newline_not_mem_render value.toInt

theorem lt_of_mem_decimals {values : List Int32} {c : Char} (h : c ∈ decimals values) :
    c.toNat < 128 := by
  obtain ⟨line, hline, hmem⟩ := List.mem_flatMap.mp h
  obtain ⟨value, -, rfl⟩ := List.mem_map.mp hline
  rcases List.mem_append.mp hmem with hrender | hnewline
  · exact Reference.lt_of_mem_render hrender
  · rw [List.mem_singleton.mp hnewline]
    decide

/-- What is printed of values is their text. -/
theorem flatMap_decimal_eq_map (values : List Int32) :
    values.flatMap Printed.decimal = (decimals values).map Char.toUInt8 := by
  rw [decimals, List.flatMap_map, List.map_flatMap]
  apply List.flatMap_congr
  intro value _
  rw [List.map_append]
  rfl

/-- The program whose lines are those of a text, each with `push` in front. -/
def pushes (text : List Char) : String :=
  String.ofList ((Text.lines text).flatMap fun line => "push ".toList ++ line ++ ['\n'])

theorem pushes_decimals (values : List Int32) :
    pushes (decimals values) =
      Action.listing ((values.map Entry.insert).map Entry.action) := by
  rw [pushes, lines_decimals, Action.listing, Statement.program]
  simp only [List.flatMap_map, List.map_map, Function.comp_apply, Entry.action,
    Action.written_push]

namespace Action

theorem listing_cons (action : Action) (actions : List Action) :
    listing (action :: actions) =
      String.ofList (action.statement.written ++ ['\n']) ++ listing actions := by
  apply String.toList_inj.mp
  simp only [listing, Statement.program, String.toList_append, String.toList_ofList, List.map_cons,
    List.flatMap_cons]

end Action

namespace Entry

theorem insertedIn_map_insert (wanted inForce : Mode) (values : List Int32) :
    insertedIn wanted inForce (values.map insert) = if inForce = wanted then values else [] := by
  induction values with
  | nil => simp [insertedIn]
  | cons value values ih =>
      rw [List.map_cons, insertedIn, ih]
      split <;> rfl

end Entry

/-- A program that succeeds on every new machine, whatever the output, and leaves these values. -/
def Leaves (source : String) (values : List Int32) : Prop :=
  ∀ sink, ((Machine.start sink).runSource source).failure? = none ∧
    ((Machine.start sink).runSource source).machine.sequence.toList = values

theorem Leaves.unique {source : String} {values others : List Int32} (h : Leaves source values)
    (h' : Leaves source others) : values = others :=
  (h Sink.unbounded).2.symm.trans (h' Sink.unbounded).2

theorem leaves_listing (entries : List Entry) :
    Leaves (Action.listing (entries.map Entry.action))
      ((Entry.insertedIn .stack .stack entries).reverse ++
        Entry.insertedIn .queue .stack entries) := by
  intro sink
  have hrun := Machine.runSource_of_asks (Machine.asks_listing (entries.map Entry.action))
    (Machine.start sink)
  have hentries := Machine.actEach_entries (Machine.start sink) 1 entries []
  rw [List.append_nil] at hentries
  obtain ⟨hmachine, hfailure⟩ := Prod.mk.inj (hrun.trans hentries)
  refine ⟨hfailure, ?_⟩
  rw [hmachine, Machine.toList_foldl_enter_start]

theorem leaves_pushes (values : List Int32) : Leaves (pushes (decimals values)) values.reverse := by
  have h := leaves_listing (values.map Entry.insert)
  rw [Entry.insertedIn_map_insert, Entry.insertedIn_map_insert] at h
  rw [pushes_decimals]
  simpa using h

theorem leaves_queue_pushes (values : List Int32) :
    Leaves ("queue\n" ++ pushes (decimals values)) values := by
  have h := leaves_listing (.select .queue :: values.map Entry.insert)
  have hqueue : "queue\n" =
      String.ofList ((Action.select .queue).statement.written ++ ['\n']) := by decide
  rw [Entry.insertedIn, Entry.insertedIn, Entry.insertedIn_map_insert,
    Entry.insertedIn_map_insert, List.map_cons, Entry.action, Action.listing_cons, ← hqueue,
    ← pushes_decimals] at h
  simpa using h

namespace Sequence

/-- What is printed of a sequence when all its values are printed and the output takes
everything. -/
def dump (s : Sequence) : List UInt8 :=
  ((⟨default, s, Sink.unbounded⟩ : Machine).execute 1 .pall).machine.sink.written.toList

theorem dump_eq (s : Sequence) : s.dump = s.toList.flatMap Printed.decimal := by
  rw [dump, Machine.execute_pall rfl]
  simp [Machine.done, Sink.unbounded, Sink.fresh]

theorem decode_dump (s : Sequence) : Utf8.decode s.dump = decimals s.toList := by
  rw [dump_eq, flatMap_decimal_eq_map]
  exact Utf8.decode_map_toUInt8 fun _ => lt_of_mem_decimals

/-- Text printed by a sequence that operations can reach: it does not depend on the mode, the line
or what has been printed before, and its printing changes nothing else. Decoding it loses nothing,
and it has one line for each value, ended by a newline. A program with one insertion for each line
leaves the same values on a new machine, reversed unless the queue mode is put in force first, and
fails nowhere. So two sequences print the same text exactly if they hold the same values. -/
theorem dump_reads_back (operations : List Operation) :
    let s := empty.after operations
    let text := Utf8.decode s.dump
    (∀ mode line failsFlush written,
      (⟨mode, s, ⟨none, failsFlush, written⟩⟩ : Machine).execute line .pall =
        Machine.done ⟨mode, s, ⟨none, failsFlush, written ++ s.dump⟩⟩) ∧
    text.flatMap String.utf8EncodeChar = s.dump ∧
    (Text.lines text).flatMap (fun line => line ++ ['\n']) = text ∧
    (Text.lines text).length = s.length ∧
    Leaves ("queue\n" ++ pushes text) s.toList ∧ Leaves (pushes text) s.toList.reverse ∧
    ∀ others, (empty.after others).dump = s.dump ↔ (empty.after others).toList = s.toList := by
  intro s text
  obtain ⟨slots, values, h⟩ := exists_represents_after operations
  have htext : text = decimals s.toList := s.decode_dump
  have hlength : s.toList.length = s.length := by rw [h.toList_eq, h.length_values]
  refine ⟨?_, ?_, ?_, ?_, ?_, ?_, ?_⟩
  · intro mode line failsFlush written
    rw [Machine.execute_pall rfl, dump_eq]
  · rw [htext, Reference.encode_of_forall_lt fun _ => lt_of_mem_decimals, dump_eq,
      flatMap_decimal_eq_map]
  · rw [htext, lines_decimals, decimals]
  · rw [htext, lines_decimals, List.length_map, hlength]
  · rw [htext]
    exact leaves_queue_pushes s.toList
  · rw [htext]
    exact leaves_pushes s.toList
  · intro others
    constructor
    · intro hdump
      -- The common text rebuilds the values of both sequences, and a program leaves only one list.
      have hothers := leaves_queue_pushes (empty.after others).toList
      rw [← decode_dump, hdump, decode_dump] at hothers
      exact hothers.unique (leaves_queue_pushes s.toList)
    · intro hvalues
      rw [dump_eq, dump_eq, hvalues]

end Sequence

end StackQueue
