import StackQueue.Machine.Session
import StackQueue.Proofs.Machine.Narrowing

/-!
# Actions that go on after failures

Actions are carried out one after the other, each on the machine that the one before it left,
whether that one failed or not. An output with a limit changes neither the mode nor the values
behind any of them. It gets the first octets of what is printed in all and is to blame for exactly
those actions that print something beyond the limit.

## Implementation notes

An action that fails for lack of room has changed nothing but the output. So `Machine.narrowed`
relates the two machines behind every action, also behind those that failed, and the list needs no
other invariant.
-/

namespace StackQueue.Machine

variable {m : Machine} {limit : Option Nat} {failsFlush : Bool}

/-- The machine behind actions that are carried out on behalf of lines, whether they failed or
not. -/
def afterActions (m : Machine) (actions : List (Nat × Action)) : Machine :=
  actions.foldl (fun m entry => (m.act entry.1 entry.2).machine) m

theorem afterActions_cons (m : Machine) (line : Nat) (action : Action)
    (actions : List (Nat × Action)) :
    m.afterActions ((line, action) :: actions) =
      (m.act line action).machine.afterActions actions := rfl

theorem afterActions_take_succ (m : Machine) {actions : List (Nat × Action)} {index : Nat}
    (h : index < actions.length) :
    m.afterActions (actions.take (index + 1)) =
      ((m.afterActions (actions.take index)).act actions[index].1 actions[index].2).machine := by
  rw [List.take_succ_eq_append_getElem h, afterActions, List.foldl_append]
  rfl

/-- An action that puts a mode in force does what a mode line does. -/
theorem act_select (m : Machine) (line : Nat) (mode : Mode) :
    m.act line (.select mode) = m.step line (.mode mode) := rfl

theorem growsTo_act (m : Machine) (line : Nat) (action : Action) :
    m.sink.GrowsTo (m.act line action).machine.sink := by
  cases action with
  | perform instruction => exact growsTo_execute m line instruction
  | select mode => exact growsTo_step m line (.mode mode)

theorem growsTo_afterActions (m : Machine) (actions : List (Nat × Action)) :
    m.sink.GrowsTo (m.afterActions actions).sink := by
  induction actions generalizing m with
  | nil => exact .refl _
  | cons entry actions ih => exact (growsTo_act m entry.1 entry.2).trans (ih _)

/-- An output that takes everything is never to blame for an action. -/
theorem act_ne_output (hwide : m.sink.limit = none) (line : Nat) (action : Action) :
    (m.act line action).failure? ≠ some .output := by
  cases action with
  | perform instruction => exact (execute_atomic m line instruction _).ne_output hwide
  | select mode => exact step_ne_output hwide line (.mode mode)

/-- An action on a narrowed machine fails where it prints something that reaches beyond the limit,
and otherwise ends as on the wide one. -/
theorem act_narrowed (hwide : m.sink.limit = none) (line : Nat) (action : Action) :
    (m.narrowed limit failsFlush).act line action =
      let outcome := m.act line action
      ⟨outcome.machine.narrowed limit failsFlush,
        if outcome.machine.sink.written ≠ m.sink.written ∧
            Sink.overflows limit outcome.machine.sink.written.size = true then some .output
        else outcome.failure?,
        outcome.events⟩ := by
  cases action with
  | perform instruction => exact execute_narrowed hwide line instruction
  | select mode =>
      simp only [act_select, step_mode, ne_eq, not_true_eq_false, false_and, if_false]
      rfl

/-- Actions on a narrowed machine lead to the narrowed machine. -/
theorem afterActions_narrowed (hwide : m.sink.limit = none) (actions : List (Nat × Action)) :
    (m.narrowed limit failsFlush).afterActions actions =
      (m.afterActions actions).narrowed limit failsFlush := by
  induction actions generalizing m with
  | nil => rfl
  | cons entry actions ih =>
      obtain ⟨line, action⟩ := entry
      rw [afterActions_cons, afterActions_cons, act_narrowed hwide]
      exact ih ((growsTo_act m line action).limit_eq.trans hwide)

/-- An action has printed something exactly if more octets have been written behind it. -/
theorem written_act_ne_iff (m : Machine) (line : Nat) (action : Action) :
    (m.act line action).machine.sink.written ≠ m.sink.written ↔
      m.sink.written.size < (m.act line action).machine.sink.written.size := by
  obtain ⟨octets, hoctets⟩ := growsTo_act m line action
  rw [hoctets, Sink.size_append, Nat.lt_add_right_iff_pos, List.length_pos_iff]
  apply not_congr
  rw [← Array.toList_inj, Array.toList_appendList]
  exact List.append_right_eq_self

theorem failure?_act_narrowed (hwide : m.sink.limit = none) (capacity : Nat) (line : Nat)
    (action : Action) :
    ((m.narrowed (some capacity) failsFlush).act line action).failure? =
      if m.sink.written.size < (m.act line action).machine.sink.written.size ∧
          capacity < (m.act line action).machine.sink.written.size then some .output
      else (m.act line action).failure? := by
  rw [act_narrowed hwide]
  simp only [written_act_ne_iff, Sink.overflows, Option.any_some, decide_eq_true_eq]

/-- The output is to blame exactly for what is printed beyond the limit. -/
theorem failure?_act_narrowed_eq_output_iff (hwide : m.sink.limit = none) (capacity : Nat)
    (failsFlush : Bool) (line : Nat) (action : Action) :
    ((m.narrowed (some capacity) failsFlush).act line action).failure? = some .output ↔
      m.sink.written.size < (m.act line action).machine.sink.written.size ∧
        capacity < (m.act line action).machine.sink.written.size := by
  rw [failure?_act_narrowed hwide]
  split
  · next hover => exact iff_of_true rfl hover
  · next hroom => exact iff_of_false (act_ne_output hwide line action) hroom

/-- However the octets that an action prints are divided into pieces, a narrowed output ends as it
does where these are written one after the other up to the first that does not fit. -/
theorem writeEach_narrowed (hwide : m.sink.limit = none) (capacity : Nat) (line : Nat)
    (action : Action) {pieces : List (List UInt8)}
    (h : (m.act line action).machine.sink.written = m.sink.written ++ pieces.flatten) :
    let narrow := m.narrowed (some capacity) failsFlush
    narrow.sink.writeEach pieces =
      (decide ((narrow.act line action).failure? ≠ some .output),
        (narrow.act line action).machine.sink) := by
  intro narrow
  have hsink : (m.act line action).machine.sink = (m.sink.write pieces.flatten).2 := by
    obtain ⟨octets, hoctets⟩ := growsTo_act m line action
    have hfits : m.sink.fits pieces.flatten = true := by rw [Sink.fits, hwide]
    rw [Sink.write_eq_of_fits hfits, ← h, hoctets]
  have hfits := Sink.fits_narrowed_iff m.sink (some capacity) failsFlush pieces.flatten
  rw [Sink.writeEach_eq_write]
  apply Prod.ext
  · rw [Bool.eq_iff_iff, decide_eq_true_iff, ne_eq, failure?_act_narrowed_eq_output_iff hwide, h,
      Sink.size_append]
    change (m.sink.narrowed (some capacity) failsFlush).fits pieces.flatten = true ↔ _
    rw [hfits, ← List.length_eq_zero_iff]
    simp only [Sink.overflows, Option.any_some, decide_eq_false_iff_not]
    omega
  · rw [act_narrowed hwide]
    change ((m.sink.narrowed (some capacity) failsFlush).write pieces.flatten).2 =
      (m.act line action).machine.sink.narrowed (some capacity) failsFlush
    rw [Sink.write_narrowed_snd hwide, hsink]

/-- An output with a limit changes neither the mode nor the sequence behind any action of a list,
also where actions fail, and gets the first octets of what is printed. The output is to blame for
exactly those actions that print something and with which more has been printed than the limit
lets through; every other action ends as it does where there is room for everything. In how many
pieces an action writes what it prints makes no difference. -/
theorem limit_spares_computation (mode : Mode) (actions : List (Nat × Action)) (capacity : Nat)
    (failsFlush : Bool) :
    let wide (count : Nat) :=
      (⟨mode, .empty, Sink.fresh none failsFlush⟩ : Machine).afterActions (actions.take count)
    let narrow (count : Nat) :=
      (⟨mode, .empty, Sink.fresh (some capacity) failsFlush⟩ : Machine).afterActions
        (actions.take count)
    (∀ count, (narrow count).mode = (wide count).mode ∧
      (narrow count).sequence = (wide count).sequence ∧
      (narrow count).sink.written.toList = (wide count).sink.written.toList.take capacity) ∧
    ∀ (index : Nat) (h : index < actions.length),
      let ideal := (wide index).act actions[index].1 actions[index].2
      let limited := (narrow index).act actions[index].1 actions[index].2
      (limited.failure? = some .output ↔
        (wide index).sink.written.size < (wide (index + 1)).sink.written.size ∧
          capacity < (wide (index + 1)).sink.written.size) ∧
      (limited.failure? ≠ some .output → limited.failure? = ideal.failure?) ∧
      ∀ pieces : List (List UInt8),
        (wide (index + 1)).sink.written = (wide index).sink.written ++ pieces.flatten →
        (narrow index).sink.writeEach pieces =
          (decide (limited.failure? ≠ some .output), (narrow (index + 1)).sink) := by
  intro wide narrow
  have hnarrow (count : Nat) : narrow count = (wide count).narrowed (some capacity) failsFlush := by
    have hstart : (⟨mode, .empty, Sink.fresh (some capacity) failsFlush⟩ : Machine) =
        Machine.narrowed ⟨mode, .empty, Sink.fresh none failsFlush⟩ (some capacity) failsFlush := by
      simp only [Machine.narrowed, Sink.narrowed, Sink.fresh, Sink.clip, List.take_nil]
    unfold narrow wide
    rw [hstart, afterActions_narrowed rfl]
  have hwide (count : Nat) : (wide count).sink.limit = none :=
    (growsTo_afterActions _ _).limit_eq
  constructor
  · intro count
    rw [hnarrow]
    exact ⟨rfl, rfl, rfl⟩
  · intro index h ideal limited
    have hideal : wide (index + 1) = ideal.machine := afterActions_take_succ _ h
    have hlimited : narrow (index + 1) = limited.machine := afterActions_take_succ _ h
    have heq : limited = ((wide index).narrowed (some capacity) failsFlush).act
        actions[index].1 actions[index].2 :=
      congrArg (fun m => m.act actions[index].1 actions[index].2) (hnarrow index)
    have hiff := failure?_act_narrowed_eq_output_iff (hwide index) capacity failsFlush
      actions[index].1 actions[index].2
    rw [← heq] at hiff
    refine ⟨?_, ?_, ?_⟩
    · rw [hideal]
      exact hiff
    · intro hne
      rw [heq, failure?_act_narrowed (hwide index)]
      exact if_neg (mt hiff.mpr hne)
    · intro pieces hpieces
      rw [hideal] at hpieces
      rw [hlimited, hnarrow, heq]
      exact writeEach_narrowed (hwide index) capacity _ _ hpieces

/-- Behind a full output a removal succeeds, so does a print of no values, and what cannot be
carried out is still told. -/
theorem limit_spares_computation_full :
    let actions : List (Nat × Action) := [(1, .perform (.push 5)), (2, .perform .pall),
      (3, .select .queue), (4, .perform .pop), (5, .perform .pall), (6, .perform .pint)]
    let narrow (count : Nat) :=
      (⟨.stack, .empty, Sink.fresh (some 1) false⟩ : Machine).afterActions (actions.take count)
    ((narrow 1).act 2 (.perform .pall)).failure? = some .output ∧
      ((narrow 3).act 4 (.perform .pop)).failure? = none ∧
      ((narrow 4).act 5 (.perform .pall)).failure? = none ∧
      ((narrow 5).act 6 (.perform .pint)).failure? = some (.emptyPint 6) := by
  intro actions narrow
  obtain ⟨-, hactions⟩ := limit_spares_computation .stack actions 1 false
  refine ⟨(hactions 1 (by decide)).1.mpr (by decide +kernel), ?_, ?_, ?_⟩
  · exact ((hactions 3 (by decide)).2.1 (by decide +kernel)).trans (by decide +kernel)
  · exact ((hactions 4 (by decide)).2.1 (by decide +kernel)).trans (by decide +kernel)
  · exact ((hactions 5 (by decide)).2.1 (by decide +kernel)).trans (by decide +kernel)

end StackQueue.Machine
