import ChipEight.Proofs.Presses

/-!
# Waiting for a key

An `FX0A` that finds no press to use makes the machine wait.  A waiting machine does
nothing until a press is latched, and then it goes on with the key of that press.  What is
latched depends on everything that was reported since the wait began, and on which of the
two ways of reporting was used: a report of all keys at once drops what was latched before.

* `Machine.PressReported`, `Machine.LatestPress` — the presses that count after a sequence
  of operations, with what the last operation does to them;
* `Machine.Waits` — a wait as it was when it began, with the press that counts latched;
* `Machine.Waits.append` — the wait goes on over every sequence in which no step finds a
  press that counts;
* `Machine.key_wait_protocol` — when a wait ends, and with which key.
-/

namespace ChipEight
namespace Machine

/-! ## A wait over the operations of a host -/

/-- A press was reported, and since then not all keys at once. -/
def PressReported (machine : Machine) (actions : List Action) : Prop :=
  ∃ before report after, actions = before ++ report :: after ∧
    (∃ key, (machine.run before).2.Presses key report) ∧
    ∀ action ∈ after, action.reportsAll = false

/-- The key belongs to the latest press that was reported, and since then not all keys
were reported at once.  If that operation pressed several keys, it is the lowest one. -/
def LatestPress (machine : Machine) (actions : List Action) (key : Key) : Prop :=
  ∃ before report after, actions = before ++ report :: after ∧
    (machine.run before).2.PressesFirst key report ∧
    ∀ between action rest, after = between ++ action :: rest →
      action.reportsAll = false ∧
        ∀ other, ¬ (machine.run (before ++ report :: between)).2.Presses other action

/-- A split of a sequence with one operation more is at that operation or before it. -/
theorem split_concat {actions before after : List Action} {action report : Action} :
    actions ++ [action] = before ++ report :: after ↔
      (before = actions ∧ report = action ∧ after = []) ∨
        ∃ kept, after = kept ++ [action] ∧ actions = before ++ report :: kept := by
  constructor
  · intro hSplit
    rcases after.eq_nil_or_concat with rfl | ⟨kept, last, rfl⟩
    · obtain ⟨rfl, hLast⟩ := List.append_singleton_inj.mp hSplit
      exact Or.inl ⟨rfl, hLast.symm, rfl⟩
    · rw [List.concat_eq_append, ← List.cons_append, ← List.append_assoc] at hSplit
      obtain ⟨hKept, rfl⟩ := List.append_singleton_inj.mp hSplit
      exact Or.inr ⟨kept, List.concat_eq_append, hKept⟩
  · rintro (⟨rfl, rfl, rfl⟩ | ⟨kept, rfl, rfl⟩)
    · rfl
    · simp

/-- One operation more makes a press count if it presses a key, and keeps one that counted
before unless it reports all keys. -/
theorem pressReported_concat {machine : Machine} {actions : List Action} {action : Action} :
    machine.PressReported (actions ++ [action]) ↔
      (∃ key, (machine.run actions).2.Presses key action) ∨
        action.reportsAll = false ∧ machine.PressReported actions := by
  constructor
  · rintro ⟨before, report, after, hSplit, hPress, hAfter⟩
    rcases split_concat.mp hSplit with ⟨rfl, rfl, rfl⟩ | ⟨kept, rfl, rfl⟩
    · exact Or.inl hPress
    · exact Or.inr ⟨hAfter action (by simp), before, report, kept, rfl, hPress,
        fun later hLater => hAfter later (List.mem_append_left _ hLater)⟩
  · rintro (hPress | ⟨hAction, before, report, after, rfl, hPress, hAfter⟩)
    · exact ⟨actions, action, [], rfl, hPress, nofun⟩
    · refine ⟨before, report, after ++ [action], by simp, hPress, ?_⟩
      simpa [or_imp, forall_and] using ⟨hAfter, hAction⟩

/-- The latest press is that of the last operation, if it has one. -/
theorem latestPress_concat {machine : Machine} {actions : List Action} {action : Action}
    {key : Key} :
    machine.LatestPress (actions ++ [action]) key ↔
      (machine.run actions).2.PressesFirst key action ∨
        action.reportsAll = false ∧
          (∀ other, ¬ (machine.run actions).2.Presses other action) ∧
          machine.LatestPress actions key := by
  constructor
  · rintro ⟨before, report, after, hSplit, hPress, hAfter⟩
    rcases split_concat.mp hSplit with ⟨rfl, rfl, rfl⟩ | ⟨kept, rfl, rfl⟩
    · exact Or.inl hPress
    · obtain ⟨hAction, hNone⟩ := hAfter kept action [] rfl
      refine Or.inr ⟨hAction, hNone, before, report, kept, rfl, hPress, ?_⟩
      rintro between later rest rfl
      exact hAfter between later (rest ++ [action]) (by simp)
  · rintro (hPress | ⟨hAction, hNone, before, report, after, rfl, hPress, hAfter⟩)
    · refine ⟨actions, action, [], rfl, hPress, fun between later rest hSplit => ?_⟩
      simp at hSplit
    · refine ⟨before, report, after ++ [action], by simp, hPress, ?_⟩
      intro between later rest hSplit
      rcases split_concat.mp hSplit with ⟨rfl, rfl, rfl⟩ | ⟨kept, rfl, rfl⟩
      · exact ⟨hAction, hNone⟩
      · exact hAfter between later kept rfl

theorem not_latestPress_nil {machine : Machine} {key : Key} :
    ¬ machine.LatestPress [] key := by
  rintro ⟨before, report, after, hSplit, -⟩
  simp at hSplit

theorem not_pressReported_nil {machine : Machine} : ¬ machine.PressReported [] := by
  rintro ⟨before, report, after, hSplit, -⟩
  simp at hSplit

/-- Whenever a press counts, there is a latest one. -/
theorem pressReported_iff {machine : Machine} {actions : List Action} :
    machine.PressReported actions ↔ ∃ key, machine.LatestPress actions key := by
  -- both sides look at the end of the sequence, so the induction takes the last operation off
  induction hLength : actions.length generalizing actions with
  | zero =>
    obtain rfl := List.length_eq_zero_iff.mp hLength
    exact iff_of_false not_pressReported_nil fun ⟨_, hLatest⟩ => not_latestPress_nil hLatest
  | succ length ih =>
    rcases actions.eq_nil_or_concat with rfl | ⟨earlier, action, rfl⟩
    · contradiction
    · rw [List.length_concat, Nat.add_right_cancel_iff] at hLength
      simp only [List.concat_eq_append, pressReported_concat, latestPress_concat, ih hLength]
      constructor
      · intro hReported
        by_cases hPress : ∃ key, (machine.run earlier).2.Presses key action
        · obtain ⟨lowest, hFirst⟩ := exists_pressesFirst hPress
          exact ⟨lowest, Or.inl hFirst⟩
        · obtain ⟨hAction, key, hLatest⟩ := hReported.resolve_left hPress
          exact ⟨key, Or.inr ⟨hAction, not_exists.mp hPress, hLatest⟩⟩
      · rintro ⟨key, hFirst | ⟨hAction, -, hLatest⟩⟩
        · exact Or.inl ⟨key, hFirst.1⟩
        · exact Or.inr ⟨hAction, key, hLatest⟩

/-- A machine that began to wait for a key still waits after a sequence of operations, and
what it has latched is the press that counts. -/
structure Waits (waiting : Machine) (x : Register) (actions : List Action) : Prop where
  fault : (waiting.run actions).2.fault = none
  awaiting : (waiting.run actions).2.awaiting = some x
  counter : (waiting.run actions).2.counter = waiting.counter
  latch : ∀ key,
    (waiting.run actions).2.keypad.latch = some key ↔ waiting.LatestPress actions key

namespace Waits

variable {waiting : Machine} {x : Register} {actions : List Action}

/-- A wait that has just begun. -/
theorem start (hFault : waiting.fault = none) (hAwaiting : waiting.awaiting = some x)
    (hLatch : waiting.keypad.latch = none) : Waits waiting x [] where
  fault := hFault
  awaiting := hAwaiting
  counter := rfl
  latch key := by
    show waiting.keypad.latch = some key ↔ _
    rw [hLatch]
    exact iff_of_false nofun not_latestPress_nil

/-- Without a press that counts nothing is latched, and the machine does nothing. -/
theorem step_eq_self (hWaits : Waits waiting x actions)
    (hUnanswered : ¬ waiting.PressReported actions) :
    (waiting.run actions).2.step = (.ok .blocked, (waiting.run actions).2) := by
  have hLatch : (waiting.run actions).2.keypad.latch = none :=
    Option.eq_none_iff_forall_not_mem.mpr fun key hKey =>
      hUnanswered (pressReported_iff.mpr ⟨key, (hWaits.latch key).mp hKey⟩)
  exact step_of_steps (.waiting hWaits.fault hWaits.awaiting hLatch)

/-- So a step does not change what the machine waits for, nor what was reported. -/
theorem concat_step (hWaits : Waits waiting x actions)
    (hUnanswered : ¬ waiting.PressReported actions) :
    Waits waiting x (actions ++ [.step]) := by
  have hSame : (waiting.run (actions ++ [.step])).2 = (waiting.run actions).2 := by
    rw [run_concat]
    exact congrArg Prod.snd (hWaits.step_eq_self hUnanswered)
  refine ⟨hSame ▸ hWaits.fault, hSame ▸ hWaits.awaiting, hSame ▸ hWaits.counter,
    fun key => ?_⟩
  rw [hSame, latestPress_concat, hWaits.latch key]
  simp [PressesFirst, Presses, Action.reportsAll]

/-- Any other operation keeps the wait, and latches the press that counts after it. -/
theorem concat_other (hWaits : Waits waiting x actions) {action : Action}
    (hSteady : action.isSteady) (hNoStep : action ≠ .step) :
    Waits waiting x (actions ++ [action]) := by
  have hSame : (waiting.run actions).2.SameControl (waiting.run (actions ++ [action])).2 := by
    rw [run_concat]
    exact ((waiting.run actions).2.act_of_isSteady hSteady).resolve_left hNoStep
  refine ⟨hSame.fault.trans hWaits.fault, hSame.awaiting.trans hWaits.awaiting,
    hSame.counter.trans hWaits.counter, fun key => ?_⟩
  rw [run_concat, latch_act hSteady hNoStep, latestPress_concat, hWaits.latch key]

/-- The wait goes on over every sequence in which no step finds a press that counts. -/
theorem append (hWaits : Waits waiting x actions) {more : List Action}
    (hSteady : ∀ action ∈ more, action.isSteady)
    (hUnanswered : ∀ before after, more = before ++ .step :: after →
      ¬ waiting.PressReported (actions ++ before)) :
    Waits waiting x (actions ++ more) := by
  induction more generalizing actions with
  | nil => simpa using hWaits
  | cons action more ih =>
    have hFirst : Waits waiting x (actions ++ [action]) := by
      by_cases hStep : action = .step
      · subst hStep
        exact hWaits.concat_step (by simpa using hUnanswered [] more rfl)
      · exact hWaits.concat_other (hSteady action List.mem_cons_self) hStep
    rw [List.append_cons]
    refine ih hFirst (fun later hLater => hSteady later (List.mem_cons_of_mem _ hLater)) ?_
    intro before after hSplit
    rw [← List.append_cons]
    exact hUnanswered (action :: before) after (by rw [hSplit, List.cons_append])

end Waits

/-- A machine that has just blocked on an `FX0A` begins to wait. -/
theorem waits_of_blocked {machine : Machine} {opcode : Opcode} {x : Register}
    (hFetches : machine.Fetches opcode) (hOpcode : opcode.toNat = 0xF00A + 0x100 * x.val)
    (hBlocked : machine.step.1 = .ok .blocked) :
    Waits machine.step.2 x [] ∧ machine.step.2.counter = machine.counter := by
  have hStep := step_of_fetches_awaitKey hFetches hOpcode
  cases hHeld : (machine.recording opcode).heldPress with
  | some key =>
    rw [hStep, awaitKey_of_heldPress x hHeld] at hBlocked
    cases hBlocked
  | none =>
    rw [hStep, awaitKey_of_no_heldPress x hHeld]
    exact ⟨.start hFetches.fault rfl rfl, rfl⟩

/-- The key wait over everything that a host does between two resets.  A machine that has
just blocked on an `FX0A` for `x` stays as it is at every step until a press was reported,
where a report of all keys at once makes every earlier press count for nothing.  The first
step after that stores the key of the latest press in `x`, whether or not the key is still
down, and goes on behind the `FX0A`.  Whatever state a machine is in, its step blocks
exactly if the machine waits for a key afterwards. -/
theorem key_wait_protocol :
    (∀ (machine : Machine) (opcode : Opcode) (x : Register) (actions : List Action),
      machine.Fetches opcode → opcode.toNat = 0xF00A + 0x100 * x.val →
      machine.step.1 = .ok .blocked →
      (∀ action ∈ actions, action.isSteady) →
      (∀ before after, actions = before ++ .step :: after →
        ¬ machine.step.2.PressReported before) →
      let waiting := machine.step.2
      let now := (waiting.run actions).2
      (¬ waiting.PressReported actions → now.step = (.ok .blocked, now)) ∧
        (waiting.PressReported actions →
          ∃ key, (∀ other, waiting.LatestPress actions other ↔ other = key) ∧
            now.step =
              (.ok .advanced,
                { now with
                  registers := now.registers.set x (UInt8.ofNat key.val)
                  counter := now.counter + 2
                  keypad := ⟨now.keypad.levels, none⟩
                  awaiting := none }) ∧
            (now.counter + 2).toNat = machine.counter.toNat + 2)) ∧
      ∀ (machine : Machine) (outcome : Outcome), machine.step.1 = .ok outcome →
        (outcome = .blocked ↔ ∃ x, machine.step.2.awaiting = some x) := by
  refine ⟨?_, fun machine outcome => blocked_iff_awaiting⟩
  intro machine opcode x actions hFetches hOpcode hBlocked hSteady hUnanswered waiting now
  obtain ⟨hStart, hCounter⟩ := waits_of_blocked hFetches hOpcode hBlocked
  have hWaits : Waits waiting x actions := hStart.append hSteady hUnanswered
  refine ⟨hWaits.step_eq_self, fun hReported => ?_⟩
  obtain ⟨key, hLatest⟩ := pressReported_iff.mp hReported
  have hLatch : now.keypad.latch = some key := (hWaits.latch key).mpr hLatest
  refine ⟨key, fun other => ?_,
    step_of_steps (.resumed hWaits.fault hWaits.awaiting hLatch), ?_⟩
  · rw [← hWaits.latch other, hLatch, Option.some.injEq, eq_comm]
  · have hNow : now.counter = machine.counter := hWaits.counter.trans hCounter
    have hInside := hFetches.inside
    rw [hNow]
    exact CounterStep.toNat_apply (by omega) .next

/-- A wait for register 5: a step before the press does nothing, and the press counts
although its key was released again before the next step. -/
theorem key_wait_protocol_released :
    let machine := ((fresh (Entropy.ofWords fun _ => 0)).act (.load [0xF5, 0x0A])).2
    let now := (machine.step.2.run [.step, .setKey 7 true, .setKey 7 false]).2
    machine.step.1 = .ok .blocked ∧ now.step.1 = .ok .advanced ∧ now.step.2.value 5 = 7 := by
  intro machine now
  have hFetches : machine.Fetches 0xF50A :=
    ⟨⟨by decide +kernel, by decide +kernel⟩, by decide +kernel, by decide +kernel⟩
  have hAwaits : machine.AwaitsKey 5 := awaitsKey_of_fetches hFetches rfl
  have hBlocked : machine.step.1 = .ok .blocked :=
    (step_of_no_usablePress hAwaits (by decide +kernel)).1
  have hPress : (machine.step.2.run [.step]).2.Presses 7 (.setKey 7 true) :=
    ⟨rfl, rfl, by decide +kernel⟩
  have hUnanswered : ∀ before after,
      [Action.step, .setKey 7 true, .setKey 7 false] = before ++ .step :: after →
      ¬ machine.step.2.PressReported before := by
    intro before after hSplit
    cases before with
    | nil => exact not_pressReported_nil
    | cons first before =>
      have hMem : Action.step ∈ [Action.setKey 7 true, .setKey 7 false] := by
        rw [List.tail_eq_of_cons_eq hSplit]
        simp
      simp at hMem
  have hReported : machine.step.2.PressReported [.step, .setKey 7 true, .setKey 7 false] :=
    ⟨[.step], .setKey 7 true, [.setKey 7 false], rfl, ⟨7, hPress⟩, by decide⟩
  have hLatest : machine.step.2.LatestPress [.step, .setKey 7 true, .setKey 7 false] 7 := by
    refine ⟨[.step], .setKey 7 true, [.setKey 7 false], rfl, ⟨hPress, ?_⟩, ?_⟩
    · rintro other ⟨hOther, -⟩
      exact Fin.le_of_eq (Fin.ext hOther)
    · intro between action rest hSplit
      obtain ⟨rfl, rfl, -⟩ : between = [] ∧ action = .setKey 7 false ∧ rest = [] := by
        simpa [List.singleton_eq_append_iff] using hSplit
      refine ⟨rfl, ?_⟩
      rintro other ⟨-, hDown, -⟩
      exact Bool.noConfusion hDown
  obtain ⟨key, hOnly, hStep, -⟩ := (key_wait_protocol.1 machine 0xF50A 5 _ hFetches rfl hBlocked
    (by decide) hUnanswered).2 hReported
  obtain rfl : 7 = key := (hOnly 7).mp hLatest
  refine ⟨hBlocked, congrArg Prod.fst hStep, ?_⟩
  rw [hStep, value, Registers.get_set, if_pos rfl]
  rfl

end Machine
end ChipEight
