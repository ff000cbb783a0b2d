import StackQueue.Proofs.Machine.Listing
import StackQueue.Proofs.Machine.Renumbering
import StackQueue.Proofs.Reference.Simulation
import StackQueue.Proofs.Run.BoundedOutput
import StackQueue.Proofs.Run.Chronicle

/-!
# Programs with folded constants

Lines of a program can be exchanged for others that lead to the same values, also where they leave
other cells and other free slots behind. Here three lines that insert two constants in stack mode
and combine them are exchanged for one that inserts the result and two that do nothing. In front of
every output the answer of the program stays the same, whatever the program does before and after
these lines.

## Implementation notes

Outcomes are compared through the states that they show, in which no cell and no slot occurs. Such
a comparison needs an output that takes everything; the answers in front of other outputs are
settled by it.
-/

namespace StackQueue

open Reference

namespace Outcome

variable {outcome other : Outcome}

/-- Two outcomes that show the same state and fail alike, if they fail. -/
def Alike (outcome other : Outcome) : Prop :=
  ∃ result, Reference.Ends outcome result ∧ Reference.Ends other result

theorem Alike.andThen {next next' : Machine → Outcome} (h : outcome.Alike other)
    (hnext : ∀ state m m', Reference.Ends outcome (state, none) → Shows m state → Shows m' state →
      (next m).Alike (next' m')) :
    (outcome.andThen next).Alike (other.andThen next') := by
  obtain ⟨⟨state, failure?⟩, hends, hends'⟩ := h
  cases failure? with
  | some failure => exact ⟨_, hends.andThen_error next, hends'.andThen_error next'⟩
  | none =>
      obtain ⟨hshows, hsuccess⟩ := hends
      obtain ⟨hshows', hsuccess'⟩ := hends'
      rw [andThen_of_success next hsuccess, andThen_of_success next' hsuccess']
      exact hnext state _ _ ⟨hshows, hsuccess⟩ hshows hshows'

end Outcome

namespace Machine

variable {m m' : Machine} {state : State}

/-- Machines that show the same state are led to the same state by any lines. -/
theorem alike_runStatements (h : Shows m state) (h' : Shows m' state) (number : Nat)
    (texts : List (List Char)) :
    (m.runStatements (Statement.numberedFrom number texts)).Alike
      (m'.runStatements (Statement.numberedFrom number texts)) :=
  ⟨_, ends_runLines h number texts, ends_runLines h' number texts⟩

/-- Lines that can be exchanged for others where a mode is in force. -/
def Interchangeable (mode : Mode) (texts others : List (List Char)) : Prop :=
  texts.length = others.length ∧ ∀ m m' state number, Shows m state → Shows m' state →
    state.mode = mode → (m.runStatements (Statement.numberedFrom number texts)).Alike
      (m'.runStatements (Statement.numberedFrom number others))

end Machine

namespace Statement

/-- The mode that a statement names, if it is a mode line. -/
def mode? : Statement → Option Mode
  | .mode selected => some selected
  | .blank | .op _ _ => none

end Statement

namespace Machine

/-- Behind a statement the mode is in force that it names, or else the one from before. -/
theorem mode_step (m : Machine) (line : Nat) (statement : Statement) :
    (m.step line statement).machine.mode = statement.mode?.getD m.mode := by
  cases statement with
  | blank => rfl
  | mode selected => rw [step_mode, Statement.mode?, Option.getD_some]
  | op word operand? => exact mode_dispatch m line word operand?

/-- Behind lines that were carried out the mode is in force that the last mode line names, or else
the one from before. -/
theorem mode_runStatements (m : Machine) (number : Nat) (texts : List (List Char))
    (h : (m.runStatements (Statement.numberedFrom number texts)).failure? = none) :
    (m.runStatements (Statement.numberedFrom number texts)).machine.mode =
      ((texts.filterMap fun text => (Statement.ofLine text).mode?).getLast?).getD m.mode := by
  induction texts generalizing m number with
  | nil => rfl
  | cons text texts ih =>
      rw [Statement.numberedFrom_cons, runStatements_cons] at h ⊢
      cases hfailure : (m.step number (Statement.ofLine text)).failure? with
      | some failure =>
          rw [Outcome.andThen_of_failure hfailure, hfailure] at h
          cases h
      | none =>
          rw [Outcome.andThen_of_success _ hfailure] at h ⊢
          rw [ih _ _ h, mode_step]
          cases hmode : (Statement.ofLine text).mode? with
          | none => simp only [List.filterMap_cons, hmode, Option.getD_none]
          | some selected =>
              simp only [List.filterMap_cons, hmode, List.getLast?_cons, Option.getD_some]

/-- Lines can be exchanged for others between the same lines, if the lines in front leave the mode
in force for which they can be. -/
theorem Interchangeable.alike {mode : Mode} {before texts others after : List (List Char)}
    (h : Interchangeable mode texts others)
    (hmode : ((before.filterMap fun text => (Statement.ofLine text).mode?).getLast?).getD m.mode =
      mode) (hm : Shows m state) (number : Nat) :
    (m.runStatements (Statement.numberedFrom number (before ++ (texts ++ after)))).Alike
      (m.runStatements (Statement.numberedFrom number (before ++ (others ++ after)))) := by
  obtain ⟨hlength, hexchange⟩ := h
  simp only [Statement.numberedFrom_append, runStatements_append, hlength]
  refine (alike_runStatements hm hm number before).andThen ?_
  intro state' m₁ m₂ hends h₁ h₂
  have hforce : state'.mode = mode := by
    rw [← hends.1.mode_eq, mode_runStatements m number before hends.2, hmode]
  -- Behind the exchanged lines the machines may differ in their cells, but they show one state, and
  -- that settles what the lines behind do.
  refine (hexchange m₁ m₂ state' _ h₁ h₂ hforce).andThen ?_
  intro _ _ _ _ h₁ h₂
  exact alike_runStatements h₁ h₂ _ after

end Machine

/-! ### Lines that ask for actions -/

/-- A line that asks for an action and for nothing else. -/
structure Asks (line : String) (action : Action) : Prop where
  newline_not_mem : '\n' ∉ line.toList
  action?_eq : ∀ number, (Statement.parse line).action? number = .ok (some action)

namespace Asks

variable {line : String} {action : Action}

theorem toList_ne_nil (h : Asks line action) : line.toList ≠ [] := by
  intro hnil
  have haction := h.action?_eq 0
  rw [Statement.parse, hnil] at haction
  cases haction

/-- The line that is written for an action asks for it. -/
theorem written (action : Action) : Asks (String.ofList action.statement.written) action := by
  have hreadable := action.readable_statement
  constructor
  · rw [String.toList_ofList]
    exact Statement.newline_not_mem_written hreadable
  · intro number
    rw [Statement.parse, String.toList_ofList, Statement.ofLine_written hreadable]
    exact Statement.action?_statement action number

theorem push (value : Int32) :
    Asks ("push " ++ Decimal.text value.toInt) (.perform (.push value)) := by
  have hline : "push " ++ Decimal.text value.toInt =
      String.ofList (Action.perform (.push value)).statement.written := by
    apply String.toList_inj.mp
    calc ("push " ++ Decimal.text value.toInt).toList =
        "push ".toList ++ Decimal.render value.toInt := by
          rw [String.toList_append, Decimal.toList_text]
      _ = (Action.perform (.push value)).statement.written := (Action.written_push value).symm
      _ = _ := String.toList_ofList.symm
  rw [hline]
  exact written _

theorem nop : Asks "nop" (.perform .nop) := by
  refine ⟨by decide, ?_⟩
  intro number
  rfl

end Asks

namespace Reference

variable {m : Machine} {state : State} {line : String} {action : Action}

/-- A line ends as the action ends that it asks for. -/
theorem ends_of_asks {number : Nat} {result : State × Option Failure} (hasks : Asks line action)
    (h : Ends (m.act number action) result) :
    Ends (m.step number (Statement.parse line)) result := by
  have hforget := (Unobserved.forget_step m number (Statement.parse line)).trans
    (Machine.step_of_action? (hasks.action?_eq number) m)
  obtain ⟨hmachine, hfailure⟩ := Prod.mk.inj hforget
  rw [Ends, hmachine, hfailure]
  exact h

theorem ends_cons_of_asks {number : Nat} {texts : List (List Char)} {after : State}
    {result : State × Option Failure} (hasks : Asks line action)
    (h : Ends (m.act number action) (after, none))
    (hnext : ∀ m, Shows m after →
      Ends (m.runStatements (Statement.numberedFrom (number + 1) texts)) result) :
    Ends (m.runStatements (Statement.numberedFrom number (line.toList :: texts))) result := by
  rw [Statement.numberedFrom_cons, Machine.runStatements_cons]
  exact (ends_of_asks hasks h).andThen_ok hnext

theorem ends_push (h : Shows m state) (hmode : state.mode = .stack) (number : Nat)
    (value : Int32) :
    Ends (m.act number (.perform (.push value)))
      (state.withValues (value :: state.values), none) := by
  obtain ⟨slots, hrepresents⟩ := h.represents
  have hfollows : Follows ((Instruction.push value).perform m.mode number m.sequence) state
      (.ok (state.withValues (value :: state.values))) := by
    rw [h.mode_eq, hmode]
    exact follows_operation hrepresents (.push .stack value)
  exact ends_execute h hfollows

theorem ends_nop (h : Shows m state) (number : Nat) :
    Ends (m.act number (.perform .nop)) (state, none) := by
  obtain ⟨slots, hrepresents⟩ := h.represents
  have hfollows : Follows (Instruction.nop.perform m.mode number m.sequence) state (.ok state) :=
    follows_withValues hrepresents
  exact ends_execute h hfollows

theorem ends_arith (h : Shows m state) {op : Operator} {front second value : Int32}
    {rest : List Int32} (hvalues : state.values = front :: second :: rest)
    (happly : op.apply front second = some value) (number : Nat) :
    Ends (m.act number (.perform (.arith op))) (state.withValues (value :: rest), none) := by
  obtain ⟨slots, hrepresents⟩ := h.represents
  have hfollows := follows_combine hrepresents number op
  rw [← h.mode_eq] at hfollows
  have heffect : combine number op state = .ok (state.withValues (value :: rest)) := by
    rw [apply_eq] at happly
    rw [combine, hvalues]
    split at happly
    · cases happly
    · next hzero =>
        cases happly
        exact if_neg hzero
  rw [heffect] at hfollows
  exact ends_execute h hfollows

end Reference

namespace Machine

/-- In stack mode, two insertions and an operation on the inserted values can be exchanged for the
insertion of the result. -/
theorem interchangeable_fold {first second third : String} {op : Operator} {a b c : Int32}
    (hfirst : Asks first (.perform (.push a))) (hsecond : Asks second (.perform (.push b)))
    (hthird : Asks third (.perform (.arith op))) (happly : op.apply b a = some c) :
    Interchangeable .stack [first.toList, second.toList, third.toList]
      [("push " ++ Decimal.text c.toInt).toList, "nop".toList, "nop".toList] := by
  refine ⟨rfl, ?_⟩
  intro m m' state number h h' hmode
  refine ⟨(state.withValues (c :: state.values), none), ?_, ?_⟩
  · apply ends_cons_of_asks hfirst (ends_push h hmode number a)
    intro m h
    apply ends_cons_of_asks hsecond (ends_push h hmode _ b)
    intro m h
    apply ends_cons_of_asks hthird (ends_arith h rfl happly _)
    intro m h
    exact ⟨h, rfl⟩
  · apply ends_cons_of_asks (.push c) (ends_push h' hmode number c)
    intro m h
    apply ends_cons_of_asks .nop (ends_nop h _)
    intro m h
    apply ends_cons_of_asks .nop (ends_nop h _)
    intro m h
    exact ⟨h, rfl⟩

end Machine

namespace Text

/-- A text that holds no newline is a line, also where a newline follows. -/
theorem lines_append_of_ends {line rest : List Char} (hne : line ≠ []) (h : '\n' ∉ line)
    (hrest : rest = [] ∨ rest.head? = some '\n') :
    lines (line ++ rest) = line :: lines rest.tail := by
  cases rest with
  | nil => rw [List.append_nil, lines_of_no_newline line hne h, List.tail_nil, lines_nil]
  | cons c rest =>
      obtain rfl : c = '\n' := by simpa using hrest
      exact lines_append_newline line rest h

end Text

namespace Run

/-- The mode that is in force behind the lines of a program: the one that its last mode line names,
or stack mode if it has none. -/
def modeInForce (source : String) : Mode :=
  ((Text.lines source.toList).filterMap fun text =>
    (Statement.ofLine text).mode?).getLast?.getD .stack

/-- Programs that show the same state in front of an output that takes everything give the same
answer in front of any output. -/
theorem answer_eq_of_alike {source other : String}
    (h : (body source Sink.unbounded).Alike (body other Sink.unbounded)) (limit : Option Nat)
    (failsFlush : Bool) :
    (ofSource source (Sink.fresh limit failsFlush)).answer =
      (ofSource other (Sink.fresh limit failsFlush)).answer := by
  obtain ⟨_, ⟨hshows, hfailure⟩, ⟨hshows', hfailure'⟩⟩ := h
  have hwritten : (body source Sink.unbounded).machine.sink.written =
      (body other Sink.unbounded).machine.sink.written :=
    Array.toList_inj.mp (hshows.written_eq.trans hshows'.written_eq.symm)
  -- A narrowed output is made from nothing but what has been written.
  obtain ⟨hsink, hnarrow⟩ := body_fresh source limit failsFlush
  obtain ⟨hsink', hnarrow'⟩ := body_fresh other limit failsFlush
  rw [hwritten, hfailure, ← hfailure'] at hnarrow
  rw [Sink.narrowed, hwritten] at hsink
  rw [Unobserved.answer_eq_report, Unobserved.answer_eq_report, hnarrow, hnarrow']
  unfold Unobserved.report
  rw [hsink, hsink']
  rfl

/-- Lines that can be exchanged for others can be exchanged in any program, behind lines that leave
the right mode in force. -/
theorem answer_eq_of_interchangeable {source other before : String}
    {texts others after : List (List Char)} {mode : Mode}
    (h : Machine.Interchangeable mode texts others) (hmode : modeInForce before = mode)
    (hsource : Text.lines source.toList = Text.lines before.toList ++ (texts ++ after))
    (hother : Text.lines other.toList = Text.lines before.toList ++ (others ++ after))
    (limit : Option Nat) (failsFlush : Bool) :
    (ofSource source (Sink.fresh limit failsFlush)).answer =
      (ofSource other (Sink.fresh limit failsFlush)).answer := by
  apply answer_eq_of_alike
  unfold body Machine.runSource
  rw [Statement.numbered_eq, Statement.numbered_eq, hsource, hother]
  exact h.alike (m := Machine.start Sink.unbounded) hmode (shows_start false) 1

/-- In stack mode, lines that insert two constants and a line that combines them can be exchanged
for a line that inserts the result and two lines that do nothing. Whatever stands in front of these
lines and behind them, and whatever takes the output, the program gives the same answer. -/
theorem folded_constants_answer_alike {before first second third rest : String} {op : Operator}
    {a b c : Int32} (hbefore : Text.EndsLine before) (hmode : modeInForce before = .stack)
    (hfirst : Asks first (.perform (.push a))) (hsecond : Asks second (.perform (.push b)))
    (hthird : Asks third (.perform (.arith op))) (happly : op.apply b a = some c)
    (hrest : rest = "" ∨ rest.toList.head? = some '\n') (limit : Option Nat)
    (failsFlush : Bool) :
    let program (first second third : String) :=
      before ++ first ++ "\n" ++ second ++ "\n" ++ third ++ rest
    (ofSource (program first second third) (Sink.fresh limit failsFlush)).answer =
      (ofSource (program ("push " ++ Decimal.text c.toInt) "nop" "nop")
        (Sink.fresh limit failsFlush)).answer := by
  intro program
  have hlines {first second third : String} {firstAction secondAction thirdAction : Action}
      (hfirst : Asks first firstAction) (hsecond : Asks second secondAction)
      (hthird : Asks third thirdAction) :
      Text.lines (program first second third).toList = Text.lines before.toList ++
        ([first.toList, second.toList, third.toList] ++ Text.lines rest.toList.tail) := by
    have hend : rest.toList = [] ∨ rest.toList.head? = some '\n' :=
      hrest.imp_left fun h => by rw [h, String.toList_empty]
    have hnewline : "\n".toList = ['\n'] := rfl
    simp only [program, String.toList_append, List.append_assoc, hnewline, List.cons_append,
      List.nil_append]
    rw [hbefore.lines_append, Text.lines_append_newline _ _ hfirst.newline_not_mem,
      Text.lines_append_newline _ _ hsecond.newline_not_mem,
      Text.lines_append_of_ends hthird.toList_ne_nil hthird.newline_not_mem hend]
  exact answer_eq_of_interchangeable (Machine.interchangeable_fold hfirst hsecond hthird happly)
    hmode (hlines hfirst hsecond hthird) (hlines (.push c) .nop .nop) limit failsFlush

/-- A product that wraps, behind lines that return to stack mode and in front of a line that
fails. -/
theorem folded_constants_answer_alike_product :
    let before := "queue\npush 7\nstack\n# queue\n"
    let rest := "\npall\npop\npop\nswap"
    let folded := before ++ "push -2147483645" ++ "\n" ++ "nop" ++ "\n" ++ "nop" ++ rest
    (ofSource (before ++ "push -03 x" ++ "\n" ++ "\tpush 2147483647\r" ++ "\n" ++ "mul 5" ++ rest)
      (Sink.fresh (some 14) true)).answer = (ofSource folded (Sink.fresh (some 14) true)).answer ∧
      (ofSource folded (Sink.fresh (some 14) true)).answer.diagnostic =
        "L11: can't swap, stack too short\n" := by
  intro before rest folded
  refine ⟨?_, by decide +kernel⟩
  have hbefore : Text.EndsLine before := Or.inr (by decide)
  have hmode : modeInForce before = .stack := by decide
  have hfirst : Asks "push -03 x" (.perform (.push (-3))) := ⟨by decide, fun _ => rfl⟩
  have hsecond : Asks "\tpush 2147483647\r" (.perform (.push 2147483647)) :=
    ⟨by decide, fun _ => rfl⟩
  have hthird : Asks "mul 5" (.perform (.arith .mul)) := ⟨by decide, fun _ => rfl⟩
  have happly : Operator.mul.apply 2147483647 (-3) = some (-2147483645) := by decide
  exact folded_constants_answer_alike hbefore hmode hfirst hsecond hthird happly
    (Or.inr (by decide)) (some 14) true

end Run

end StackQueue
