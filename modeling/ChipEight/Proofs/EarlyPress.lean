import ChipEight.Proofs.FrameKeys
import ChipEight.Proofs.KeyHistory
import ChipEight.Proofs.KeyWait
import ChipEight.Proofs.Ticking

/-!
# Presses before the wait

A key may be pressed before the `FX0A` that asks for it.  The press stays latched until a step
uses it, and it counts while its key is still down.  The latch has room for one press only, so
that the latest one replaces those before it: whether the instruction goes on at once depends on
that one alone.  Where it does go on, it makes no difference that the press came early.  The
machine ends up as if it had been pressed while the machine was waiting.

* `Machine.PressedDuring`, `Machine.LeavesPresses` — the presses of a run, and a run that uses
  none of them;
* `Machine.latch_eq_some_iff_latestPress` — after such a run the latest press is latched;
* `Machine.latest_press_decides` — what an `FX0A` makes of it;
* `Machine.answered` — the machine after a press and the `FX0A` that it answers;
* `Machine.early_press_equals_late_press` — in which of the two orders they come makes no
  difference.
-/

namespace ChipEight
namespace Machine

variable {machine : Machine} {actions : List Action}

/-! ## The latest press of a run -/

/-- An operation of the run brings the key from up to down. -/
def PressedDuring (machine : Machine) (actions : List Action) (key : Key) : Prop :=
  ∃ before report after, actions = before ++ report :: after ∧
    (machine.run before).2.Presses key report

/-- No step of the run uses a press. -/
def LeavesPresses (machine : Machine) (actions : List Action) : Prop :=
  ∀ before after, actions = before ++ .step :: after → ¬ (machine.run before).2.CompletesWait

theorem LatestPress.pressedDuring {key : Key} (hLatest : machine.LatestPress actions key) :
    machine.PressedDuring actions key := by
  obtain ⟨before, report, after, hSplit, hFirst, -⟩ := hLatest
  exact ⟨before, report, after, hSplit, hFirst.1⟩

/-- Where keys are reported one at a time, every press counts. -/
theorem PressedDuring.pressReported {key : Key} (hPressed : machine.PressedDuring actions key)
    (hSingly : ∀ action ∈ actions, action.reportsAll = false) :
    machine.PressReported actions := by
  obtain ⟨before, report, after, rfl, hPress⟩ := hPressed
  refine ⟨before, report, after, rfl, ⟨key, hPress⟩, fun action hMem => hSingly action ?_⟩
  exact List.mem_append_right _ (List.mem_cons_of_mem _ hMem)

theorem LeavesPresses.of_concat {action : Action}
    (hLeaves : machine.LeavesPresses (actions ++ [action])) :
    machine.LeavesPresses actions ∧
      (action = .step → ¬ (machine.run actions).2.CompletesWait) := by
  constructor
  · rintro before after rfl
    exact hLeaves before (after ++ [action]) (by simp)
  · rintro rfl
    exact hLeaves actions [] rfl

/-- A step that does not use a press, and after which the machine does not wait, is not about a
key at all. -/
theorem not_awaitsKey_of_leaves (hLeaves : ¬ machine.CompletesWait)
    (hGoesOn : machine.step.2.awaiting = none) (x : Register) : ¬ machine.AwaitsKey x := by
  intro hAwaits
  cases hPress : machine.usablePress with
  | some key => exact hLeaves ⟨⟨x, hAwaits⟩, (step_of_usablePress hAwaits hPress).1⟩
  | none =>
    have hWaits := (step_of_no_usablePress hAwaits hPress).2.2
    rw [hGoesOn] at hWaits
    contradiction

/-- After a run that uses no press, and after which the machine does not wait, the latest press
of the run is latched. -/
theorem latch_eq_some_iff_latestPress (hSteady : ∀ action ∈ actions, action.isSteady)
    (hSingly : ∀ action ∈ actions, action.reportsAll = false)
    (hLeaves : machine.LeavesPresses actions)
    (hGoesOn : (machine.run actions).2.awaiting = none)
    (hReported : machine.PressReported actions) {key : Key} :
    (machine.run actions).2.keypad.latch = some key ↔ machine.LatestPress actions key := by
  -- a press in the last operation replaces all before it, so the induction takes that one off
  induction actions using List.reverseRecOn with
  | nil => exact absurd hReported not_pressReported_nil
  | append_singleton actions action ih =>
    obtain ⟨hEarlier, hLast⟩ := hLeaves.of_concat
    have hMem {earlier : Action} (hMem : earlier ∈ actions) : earlier ∈ actions ++ [action] :=
      List.mem_append_left _ hMem
    replace ih := ih (fun earlier h => hSteady earlier (hMem h))
      (fun earlier h => hSingly earlier (hMem h)) hEarlier
    rw [run_concat] at hGoesOn ⊢
    rw [latestPress_concat]
    rw [pressReported_concat] at hReported
    by_cases hStep : action = .step
    · -- a step reports no key, and one that used the latch is excluded
      subst hStep
      obtain ⟨-, hKeypad, hAwaiting⟩ :=
        step_of_not_awaitsKey (not_awaitsKey_of_leaves (hLast rfl) hGoesOn)
      have hSame : ((machine.run actions).2.act .step).2.keypad = (machine.run actions).2.keypad :=
        hKeypad
      have hBefore : machine.PressReported actions := by
        simpa [Presses, Action.reportsAll] using hReported
      rw [hSame, ih (hAwaiting.symm.trans hGoesOn) hBefore]
      simp [PressesFirst, Presses, Action.reportsAll]
    · have hControl : (machine.run actions).2.SameControl ((machine.run actions).2.act action).2 :=
        ((machine.run actions).2.act_of_isSteady (hSteady action (by simp))).resolve_left hStep
      rw [latch_act (hSteady action (by simp)) hStep]
      refine or_congr_right (and_congr_right fun _ => and_congr_right fun hNone => ?_)
      have hBefore : machine.PressReported actions :=
        (hReported.resolve_left (not_exists.mpr hNone)).2
      exact ih (hControl.awaiting.symm.trans hGoesOn) hBefore

/-- If the latched key is up again, then an `FX0A` cannot use it. -/
theorem usablePress_of_up {key : Key} (hGoesOn : machine.awaiting = none)
    (hLatch : machine.keypad.latch = some key)
    (hUp : machine.keypad.levels.get key = false) : machine.usablePress = none := by
  have hReleased : ¬ machine.HoldsPress := by
    rintro ⟨held, hHeld, hDown⟩
    obtain rfl : key = held := Option.some.inj (hLatch.symm.trans hHeld)
    rw [hUp] at hDown
    contradiction
  simp only [usablePress, hGoesOn, heldPress_eq_none_iff.mpr hReleased]

/-- An `FX0A` after presses that no step has used yet.  If the latest of them is still down, the
instruction stores its key and goes on at once, whatever other keys were pressed and released in
the meantime.  If it was released again, the machine begins to wait, also where the key of an
earlier press is still down. -/
theorem latest_press_decides (start : Machine) (actions : List Action) (opcode : Opcode)
    (x : Register) (hSteady : ∀ action ∈ actions, action.isSteady)
    (hSingly : ∀ action ∈ actions, action.reportsAll = false)
    (hLeaves : start.LeavesPresses actions)
    (hFetches : (start.run actions).2.Fetches opcode)
    (hOpcode : opcode.toNat = 0xF00A + 0x100 * x.val)
    (hPressed : ∃ key, start.PressedDuring actions key) :
    let now := (start.run actions).2
    ∃ key, start.PressedDuring actions key ∧
      (∀ other, start.LatestPress actions other ↔ other = key) ∧
      (now.keypad.levels.get key = true →
        now.step.1 = .ok .advanced ∧ (now.step.2.value x).toNat = key.val ∧
          now.step.2.awaiting = none) ∧
      (now.keypad.levels.get key = false →
        now.step.1 = .ok .blocked ∧ now.step.2.awaiting = some x) := by
  intro now
  obtain ⟨pressed, hPressed⟩ := hPressed
  have hReported : start.PressReported actions := hPressed.pressReported hSingly
  have hLatch {key : Key} : now.keypad.latch = some key ↔ start.LatestPress actions key :=
    latch_eq_some_iff_latestPress hSteady hSingly hLeaves hFetches.awaiting hReported
  obtain ⟨key, hLatest⟩ := pressReported_iff.mp hReported
  have hLatched : now.keypad.latch = some key := hLatch.mpr hLatest
  have hAwaits : now.AwaitsKey x := awaitsKey_of_fetches hFetches hOpcode
  refine ⟨key, hLatest.pressedDuring, fun other => ?_, fun hDown => ?_, fun hUp => ?_⟩
  · rw [← hLatch, hLatched, Option.some.injEq, eq_comm]
  · obtain ⟨hAdvanced, hValue, -, hAwaiting⟩ :=
      step_of_usablePress hAwaits (usablePress_of_down hLatched hDown)
    exact ⟨hAdvanced, hValue ▸ key.toNat_ofNat, hAwaiting⟩
  · have hNone : now.usablePress = none := usablePress_of_up hFetches.awaiting hLatched hUp
    obtain ⟨hBlocked, -, hAwaiting⟩ := step_of_no_usablePress hAwaits hNone
    exact ⟨hBlocked, hAwaiting⟩

/-- The key of the latest press is still down, although another key was pressed before it, and
the first one was released since. -/
theorem latest_press_decides_held :
    let start := ((fresh (Entropy.ofWords fun _ => 0)).act (.load [0x00, 0xE0, 0xF5, 0x0A])).2
    let now := (start.run [.setKey 3 true, .step, .setKey 7 true, .tick, .setKey 3 false]).2
    now.step.1 = .ok .advanced ∧ (now.step.2.value 5).toNat = 7 := by
  intro start now
  let actions : List Action :=
    [.setKey 3 true, .step, .setKey 7 true, .tick, .setKey 3 false]
  have hSteady : ∀ action ∈ actions, action.isSteady := by decide
  have hSingly : ∀ action ∈ actions, action.reportsAll = false := by decide
  have hClears : ¬ (start.run [.setKey 3 true]).2.CompletesWait := by
    have hOther (x : Register) : 0x00E0 ≠ 0xF00A + 0x100 * x.val := by omega
    rintro ⟨⟨x, -, hWaiting | ⟨-, -, hWord⟩⟩, -⟩
    · cases hWaiting
    · exact hOther x (.trans (by decide +kernel) hWord)
  have hLeaves : start.LeavesPresses actions := by
    intro before after hSplit
    obtain ⟨rfl, -⟩ :
        before = [.setKey 3 true] ∧ after = [.setKey 7 true, .tick, .setKey 3 false] := by
      simpa [actions, List.cons_eq_append_iff] using hSplit
    exact hClears
  have hFetches : now.Fetches 0xF50A := by decide +kernel
  have hPressed : start.PressedDuring actions 7 :=
    ⟨[.setKey 3 true, .step], .setKey 7 true, _, rfl, rfl, rfl, by decide +kernel⟩
  have hLatest : start.LatestPress actions 7 :=
    (latch_eq_some_iff_latestPress hSteady hSingly hLeaves hFetches.awaiting
      (hPressed.pressReported hSingly)).mp (by decide +kernel)
  obtain ⟨key, -, hOnly, hGoesOn, -⟩ :=
    latest_press_decides start actions 0xF50A 5 hSteady hSingly hLeaves hFetches rfl
      ⟨7, hPressed⟩
  obtain rfl : 7 = key := (hOnly 7).mp hLatest
  obtain ⟨hAdvanced, hValue, -⟩ := hGoesOn (by decide +kernel)
  exact ⟨hAdvanced, hValue⟩

/-- An earlier press is forgotten although its key is still down: keys 3 and 5 are pressed, key 5
is released again, and the `FX0A` after that blocks. -/
theorem earlier_press_is_forgotten :
    let start := ((fresh (Entropy.ofWords fun _ => 0)).act (.load [0xF5, 0x0A])).2
    let actions : List Action := [.setKey 3 true, .setKey 5 true, .setKey 5 false]
    let now := (start.run actions).2
    (∀ action ∈ actions, ∃ key down, action = .setKey key down) ∧
      start.PressedDuring actions 3 ∧ now.keypad.levels.get 3 = true ∧
      now.Fetches 0xF50A ∧ now.step.1 = .ok .blocked ∧ now.step.2.awaiting = some 5 := by
  intro start actions now
  have hFetches : now.Fetches 0xF50A := by decide +kernel
  have hAwaits : now.AwaitsKey 5 := awaitsKey_of_fetches hFetches rfl
  obtain ⟨hBlocked, -, hAwaiting⟩ := step_of_no_usablePress hAwaits (by decide +kernel)
  refine ⟨by simp [actions], ?_, by decide +kernel, hFetches, hBlocked, hAwaiting⟩
  exact ⟨[], .setKey 3 true, _, rfl, rfl, rfl, by decide +kernel⟩

/-! ## Before the wait or during it -/

variable {opcode : Opcode} {x : Register} {key : Key}

/-- The machine after an `FX0A` that found no press to use. -/
def asking (machine : Machine) (opcode : Opcode) (x : Register) : Machine :=
  { machine with
    opcode := opcode
    keypad := machine.keypad.clearLatch
    awaiting := some x }

/-- The machine after a press of `key` and the `FX0A` that it answers. -/
def answered (machine : Machine) (opcode : Opcode) (x : Register) (key : Key) : Machine :=
  { machine with
    opcode := opcode
    registers := machine.registers.set x (UInt8.ofNat key.val)
    counter := CounterStep.next.apply machine.counter
    keypad := (machine.keypad.set key.val true).clearLatch
    awaiting := none }

/-- Some steps, then a press of the key, and one step more. -/
def pressAfter (count : Nat) (key : Key) : List Action :=
  List.replicate count .step ++ [.setKey key.val true, .step]

theorem pressAfter_succ (count : Nat) (key : Key) :
    pressAfter (count + 1) key = .step :: pressAfter count key := rfl

theorem isSteady_pressAfter {count : Nat} :
    ∀ action ∈ pressAfter count key, action.isSteady := by
  simp only [pressAfter, List.mem_append, List.mem_replicate, List.mem_cons, List.not_mem_nil,
    or_false]
  rintro action (⟨-, rfl⟩ | rfl | rfl) <;> rfl

/-- A press of a key that is up is latched, and its key is down. -/
theorem latch_setKey_of_up (hUp : machine.keypad.levels.get key = false) :
    (machine.setKey key.val true).keypad.latch = some key ∧
      (machine.setKey key.val true).keypad.levels.get key = true := by
  constructor
  · show (machine.keypad.set key.val true).latch = some key
    simp [hUp]
  · show (machine.keypad.set key.val true).levels.get key = true
    simp

/-- An `FX0A` that finds a press whose key is down goes on at once, as a wait does that ends. -/
theorem step_of_heldPress (hFetches : machine.Fetches opcode)
    (hOpcode : opcode.toNat = 0xF00A + 0x100 * x.val) (hHeld : machine.heldPress = some key) :
    machine.step = (.ok .advanced, (machine.recording opcode).resumed x key) := by
  have hRecorded : (machine.recording opcode).heldPress = some key := hHeld
  have hGoesOn : (machine.recording opcode).awaiting = none := hFetches.awaiting
  rw [step_of_fetches_awaitKey hFetches hOpcode, awaitKey_of_heldPress x hRecorded]
  simp only [Effect.next, setValue, advance, resumed, hGoesOn, Signal.outcome, reduceCtorEq,
    decide_false, Bool.or_false]

/-- One that finds none begins to wait. -/
theorem step_of_no_heldPress (hFetches : machine.Fetches opcode)
    (hOpcode : opcode.toNat = 0xF00A + 0x100 * x.val) (hHeld : machine.heldPress = none) :
    machine.step = (.ok .blocked, machine.asking opcode x) := by
  have hRecorded : (machine.recording opcode).heldPress = none := hHeld
  rw [step_of_fetches_awaitKey hFetches hOpcode, awaitKey_of_no_heldPress x hRecorded]
  simp only [Effect.next, advance, CounterStep.apply, Signal.outcome, reduceCtorEq, decide_false,
    Bool.or_false]
  rfl

theorem Fetches.setKey (hFetches : machine.Fetches opcode) (number : Nat) (down : Bool) :
    (machine.setKey number down).Fetches opcode :=
  ⟨⟨hFetches.fault, hFetches.awaiting⟩, hFetches.inside, hFetches.word⟩

/-- The `FX0A` after a press goes on with its key. -/
theorem step_of_early_press (hFetches : machine.Fetches opcode)
    (hOpcode : opcode.toNat = 0xF00A + 0x100 * x.val)
    (hUp : machine.keypad.levels.get key = false) :
    (machine.setKey key.val true).step = (.ok .advanced, machine.answered opcode x key) := by
  have hHeld : (machine.setKey key.val true).heldPress = some key :=
    heldPress_eq_some_iff.mpr (latch_setKey_of_up hUp)
  rw [step_of_heldPress (hFetches.setKey key.val true) hOpcode hHeld]
  rfl

/-- The wait of one that blocked goes on with the key of a press as well. -/
theorem step_of_late_press (hFault : machine.fault = none)
    (hUp : machine.keypad.levels.get key = false) :
    ((machine.asking opcode x).setKey key.val true).step =
      (.ok .advanced, machine.answered opcode x key) := by
  have hAsking : (machine.asking opcode x).keypad.levels.get key = false := hUp
  have hResumes : ((machine.asking opcode x).setKey key.val true).step =
      (.ok .advanced, ((machine.asking opcode x).setKey key.val true).resumed x key) :=
    step_of_steps (.resumed hFault rfl (latch_setKey_of_up hAsking).1)
  rw [hResumes]
  simp only [resumed, setKey, asking, answered, Keypad.clearLatch_set]
  rfl

/-- Until then the wait does nothing. -/
theorem step_asking (hFault : machine.fault = none) :
    (machine.asking opcode x).step = (.ok .blocked, machine.asking opcode x) :=
  step_of_steps (.waiting hFault rfl rfl)

theorem run_asking (hFault : machine.fault = none)
    (hUp : machine.keypad.levels.get key = false) (further : Nat) :
    (machine.asking opcode x).run (pressAfter further key) =
      (List.replicate further (.stepped (.ok .blocked)) ++ [.done, .stepped (.ok .advanced)],
        machine.answered opcode x key) := by
  induction further with
  | zero =>
    show (machine.asking opcode x).run [.setKey key.val true, .step] = _
    simp only [run, act, step_of_late_press hFault hUp]
    rfl
  | succ further ih =>
    simp only [pressAfter_succ, run, act, step_asking hFault, ih]
    rfl

/-- No step of a wait uses a countdown, and neither does the `FX0A` itself. -/
theorem not_usesTimers_of_awaitsKey (hAwaits : machine.AwaitsKey x) : ¬ machine.UsesTimers := by
  rintro ⟨hReady, -, y, hTimers⟩
  obtain ⟨-, hWaiting | ⟨-, -, hWord⟩⟩ := hAwaits
  · exact hReady.awaiting_ne x hWaiting
  · omega

theorem sparesTimers_asking (hFault : machine.fault = none) (further : Nat) :
    (machine.asking opcode x).SparesTimers (pressAfter further key) := by
  have hAwaits : (machine.asking opcode x).AwaitsKey x := ⟨hFault, Or.inl rfl⟩
  induction further with
  | zero =>
    have hPressed : ((machine.asking opcode x).setKey key.val true).AwaitsKey x := hAwaits
    exact ⟨nofun, fun _ => not_usesTimers_of_awaitsKey hPressed, trivial⟩
  | succ further ih =>
    have hNext : ((machine.asking opcode x).act .step).2 = machine.asking opcode x :=
      congrArg Prod.snd (step_asking hFault)
    rw [pressAfter_succ, SparesTimers, hNext]
    exact ⟨fun _ => not_usesTimers_of_awaitsKey hAwaits, ih⟩

/-- The press first, and then the `FX0A`, with ticks in any places. -/
theorem run_early {early : List Action} (hFetches : machine.Fetches opcode)
    (hOpcode : opcode.toNat = 0xF00A + 0x100 * x.val)
    (hUp : machine.keypad.levels.get key = false) (hEarly : tickless early = pressAfter 0 key) :
    machine.answers early = [.done, .stepped (.ok .advanced)] ∧
      (machine.run early).2 =
        (machine.answered opcode x key).ticks (early.countP Action.isTick) := by
  have hAwaits : (machine.setKey key.val true).AwaitsKey x :=
    awaitsKey_of_fetches (hFetches.setKey key.val true) hOpcode
  have hSpares : machine.SparesTimers (pressAfter 0 key) :=
    ⟨nofun, fun _ => not_usesTimers_of_awaitsKey hAwaits, trivial⟩
  have hRun : machine.run (pressAfter 0 key) =
      ([.done, .stepped (.ok .advanced)], machine.answered opcode x key) := by
    show machine.run [.setKey key.val true, .step] = _
    simp only [run, act, step_of_early_press hFetches hOpcode hUp]
  simpa only [hRun] using run_of_tickless hEarly isSteady_pressAfter hSpares

/-- The `FX0A` first, and the press after any number of further steps. -/
theorem run_late {late : List Action} {further : Nat} (hFetches : machine.Fetches opcode)
    (hOpcode : opcode.toNat = 0xF00A + 0x100 * x.val) (hHeld : machine.heldPress = none)
    (hUp : machine.keypad.levels.get key = false)
    (hLate : tickless late = pressAfter (further + 1) key) :
    machine.answers late =
        List.replicate (further + 1) (.stepped (.ok .blocked)) ++
          [.done, .stepped (.ok .advanced)] ∧
      (machine.run late).2 =
        (machine.answered opcode x key).ticks (late.countP Action.isTick) := by
  have hBegins : machine.act .step = (.stepped (.ok .blocked), machine.asking opcode x) := by
    rw [act, step_of_no_heldPress hFetches hOpcode hHeld]
  have hAwaits : machine.AwaitsKey x := awaitsKey_of_fetches hFetches hOpcode
  have hSpares : machine.SparesTimers (pressAfter (further + 1) key) := by
    rw [pressAfter_succ, SparesTimers, hBegins]
    exact ⟨fun _ => not_usesTimers_of_awaitsKey hAwaits, sparesTimers_asking hFetches.fault _⟩
  have hRun : machine.run (pressAfter (further + 1) key) =
      (List.replicate (further + 1) (.stepped (.ok .blocked)) ++
          [.done, .stepped (.ok .advanced)],
        machine.answered opcode x key) := by
    rw [pressAfter_succ, run, hBegins, run_asking hFetches.fault hUp]
    rfl
  simpa only [hRun] using run_of_tickless hLate isSteady_pressAfter hSpares

/-- A press before the wait is as good as one during it.  The machine is about to execute an
`FX0A`, and would block.  One host presses a key that is up and then lets it step.  Another one
lets it step first, once or more often, then presses the key and lets it step once more.  Both
tick equally often, in any places.  All steps of the second host before the press block.  The
last step of each goes on, and leaves the same machine behind, in which the register holds the
key, the counter is behind the `FX0A`, nothing is awaited and nothing is latched. -/
theorem early_press_equals_late_press (machine : Machine) (opcode : Opcode) (x : Register)
    (key : Key) (hFetches : machine.Fetches opcode)
    (hOpcode : opcode.toNat = 0xF00A + 0x100 * x.val)
    (hBlocked : machine.step.1 = .ok .blocked)
    (hUp : machine.keypad.levels.get key = false)
    (further : Nat) (early late : List Action)
    (hEarly : tickless early = pressAfter 0 key)
    (hLate : tickless late = pressAfter (further + 1) key)
    (hTicks : early.countP Action.isTick = late.countP Action.isTick) :
    let last := (machine.run early).2
    machine.answers early = [.done, .stepped (.ok .advanced)] ∧
      machine.answers late =
        List.replicate (further + 1) (.stepped (.ok .blocked)) ++
          [.done, .stepped (.ok .advanced)] ∧
      (machine.run late).2 = last ∧
      last =
        { machine with
          opcode := opcode
          registers := machine.registers.set x (UInt8.ofNat key.val)
          counter := machine.counter + 2
          delay := machine.delay.ticks (early.countP Action.isTick)
          sound := machine.sound.ticks (early.countP Action.isTick)
          keypad := ⟨machine.keypad.levels.set key.val true key.isLt, none⟩
          awaiting := none } ∧
      (last.value x).toNat = key.val ∧
      last.counter.toNat = machine.counter.toNat + 2 := by
  intro last
  have hNone : machine.heldPress = none :=
    heldPress_eq_none_iff.mpr ((blocked_iff hFetches.toReady hFetches.inside).mp hBlocked).2
  obtain ⟨hEarlyAnswers, hEarlyLast⟩ := run_early hFetches hOpcode hUp hEarly
  obtain ⟨hLateAnswers, hLateLast⟩ := run_late hFetches hOpcode hNone hUp hLate
  have hLast := hEarlyLast.trans (ticks_eq _ _)
  simp only [answered, Keypad.clearLatch_set] at hLast
  refine ⟨hEarlyAnswers, hLateAnswers, ?_, hLast, ?_, ?_⟩
  · rw [hLateLast, ← hTicks, ← hEarlyLast]
  · have hValue : last.value x = UInt8.ofNat key.val := by
      show (machine.run early).2.value x = _
      simp [hLast, value]
    rw [hValue, Key.toNat_ofNat]
  · have hCounter : last.counter = machine.counter + 2 := congrArg Machine.counter hLast
    have hInside := hFetches.inside
    rw [hCounter]
    exact CounterStep.toNat_apply (by omega) .next

/-- The machine has the press of key 3 latched, which was released again.  Key 7 is pressed
before the `FX0A`, or after three steps that block, with three ticks in different places. -/
theorem early_press_equals_late_press_stale :
    let start := { fresh (Entropy.ofWords fun _ => 0) with delay := ⟨9⟩, sound := ⟨2⟩ }
    let machine := (start.run [.load [0xF5, 0x0A], .setKey 3 true, .setKey 3 false]).2
    let early : List Action := [.tick, .setKey 7 true, .tick, .step, .tick]
    let late : List Action := [.step, .tick, .tick, .step, .step, .setKey 7 true, .step, .tick]
    machine.keypad.latch = some 3 ∧ machine.step.1 = .ok .blocked ∧
      machine.answers early = [.done, .stepped (.ok .advanced)] ∧
      (machine.run late).2 = (machine.run early).2 ∧
      ((machine.run early).2.value 5).toNat = 7 ∧
      (machine.run early).2.counter.toNat = machine.counter.toNat + 2 := by
  intro start machine early late
  have hFetches : machine.Fetches 0xF50A := by decide +kernel
  have hHeld : machine.heldPress = none := by decide +kernel
  have hBlocked : machine.step.1 = .ok .blocked :=
    congrArg Prod.fst (step_of_no_heldPress (x := 5) hFetches rfl hHeld)
  obtain ⟨hAnswers, -, hSame, -, hValue, hCounter⟩ :=
    early_press_equals_late_press machine 0xF50A 5 7 hFetches rfl hBlocked (by decide +kernel) 2
      early late rfl rfl rfl
  exact ⟨by decide +kernel, hBlocked, hAnswers, hSame, hValue, hCounter⟩

end Machine
end ChipEight
