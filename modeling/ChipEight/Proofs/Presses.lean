import ChipEight.Proofs.Footprint
import ChipEight.Proofs.KeyReports
import ChipEight.Proofs.Running

/-!
# Presses and the steps that use them

A host reports the keys in two ways.  A report of one key latches it if it goes from up to
down; a report of all keys drops what was latched before and latches the lowest key that
goes down.  One instruction uses the latch, and so does the wait that this instruction
begins if it finds nothing to use.

* `Machine.Presses`, `Machine.PressesFirst` — the presses in an operation of the host;
* `Machine.latch_act` — what an operation does to the latch;
* `Machine.AwaitsKey`, `Machine.usablePress` — the next step is about a key, and the press
  that it can use;
* `Machine.step_of_usablePress`, `Machine.step_of_no_usablePress`,
  `Machine.step_of_not_awaitsKey` — what a step does about the keys;
* `Machine.blocked_iff_awaiting`, `Machine.blocked_iff` — a step blocks exactly if it leaves the
  machine waiting, and which steps do.
-/

namespace ChipEight

/-- If there is a key of some kind, then there is a lowest one. -/
theorem Key.exists_lowest {P : Key → Prop} {key : Key} (hKey : P key) :
    ∃ lowest, P lowest ∧ ∀ other, P other → lowest ≤ other := by
  induction hBound : key.val using Nat.strongRecOn generalizing key with
  | ind bound ih =>
    by_cases hLower : ∃ other, P other ∧ other < key
    · obtain ⟨other, hOther, hLt⟩ := hLower
      exact ih other.val (hBound ▸ hLt) hOther rfl
    · refine ⟨key, hKey, fun other hOther => ?_⟩
      rw [← Fin.not_lt]
      exact fun hLt => hLower ⟨other, hOther, hLt⟩

theorem Key.toNat_ofNat (key : Key) : (UInt8.ofNat key.val).toNat = key.val :=
  UInt8.toNat_ofNat_of_lt (Nat.lt_trans key.isLt (by decide))

namespace Machine

/-! ## Presses -/

/-- The operation reports that the key goes from up to down. -/
def Presses (machine : Machine) (key : Key) : Action → Prop
  | .setKey number down =>
    number = key.val ∧ down = true ∧ machine.keypad.levels.get key = false
  | .setKeys levels => levels.get key = true ∧ machine.keypad.levels.get key = false
  | _ => False

/-- The key is the lowest one that the operation reports to go from up to down. -/
def PressesFirst (machine : Machine) (key : Key) (action : Action) : Prop :=
  machine.Presses key action ∧ ∀ other, machine.Presses other action → key ≤ other

theorem exists_pressesFirst {machine : Machine} {action : Action}
    (hPress : ∃ key, machine.Presses key action) : ∃ key, machine.PressesFirst key action := by
  obtain ⟨key, hKey⟩ := hPress
  exact Key.exists_lowest (P := (machine.Presses · action)) hKey

/-- The operation reports all keys at once. -/
def Action.reportsAll : Action → Bool
  | .setKeys _ => true
  | _ => false

/-- What is latched after an operation that neither resets the machine nor advances it:
the lowest key that it presses, or else what was latched before, unless all keys were
reported. -/
theorem latch_act {machine : Machine} {action : Action} {key : Key}
    (hSteady : action.isSteady) (hNoStep : action ≠ .step) :
    (machine.act action).2.keypad.latch = some key ↔
      machine.PressesFirst key action ∨
        action.reportsAll = false ∧ (∀ other, ¬ machine.Presses other action) ∧
          machine.keypad.latch = some key := by
  cases action with
  | setKeys levels =>
    simp [act, setKeys, Keypad.latch_setAll, PressesFirst, Presses, Action.reportsAll]
  | setKey number down =>
    -- one key at most is reported, so it is the lowest one
    have hFirst : machine.PressesFirst key (.setKey number down) ↔
        machine.Presses key (.setKey number down) := by
      refine and_iff_left_of_imp ?_
      rintro ⟨hKey, -⟩ other ⟨hOther, -⟩
      exact Fin.le_of_eq (Fin.ext (hKey.symm.trans hOther))
    rw [hFirst]
    simp [act, setKey, Keypad.latch_set, Presses, Action.reportsAll]
  | load bytes =>
    obtain ⟨memory, hLoaded⟩ := machine.act_load bytes
    simp [hLoaded, PressesFirst, Presses, Action.reportsAll]
  | loadProgram program =>
    obtain ⟨memory, name, hLoaded⟩ := machine.act_loadProgram program
    simp [hLoaded, PressesFirst, Presses, Action.reportsAll]
  | tick | takeRedraw => simp [act, tick, takeRedraw, PressesFirst, Presses, Action.reportsAll]
  | step => contradiction
  | reset | execute => contradiction

/-! ## Steps that are about a key -/

/-- The next step is about a key for the register: the machine waits for one, or it
executes `FX0A`. -/
def AwaitsKey (machine : Machine) (x : Register) : Prop :=
  machine.fault = none ∧
    (machine.awaiting = some x ∨
      machine.awaiting = none ∧ machine.counter.toNat + 1 < 4096 ∧
        machine.word = 0xF00A + 0x100 * x.val)

/-- The press that such a step uses.  An instruction uses it only if its key is still
down, and a wait uses it in any case. -/
def usablePress (machine : Machine) : Option Key :=
  match machine.awaiting with
  | some _ => machine.keypad.latch
  | none => machine.heldPress

/-- A press is latched, and its key is still down. -/
def HoldsPress (machine : Machine) : Prop :=
  ∃ key, machine.keypad.latch = some key ∧ machine.keypad.levels.get key = true

theorem heldPress_eq_some_iff {machine : Machine} {key : Key} :
    machine.heldPress = some key ↔
      machine.keypad.latch = some key ∧ machine.keypad.levels.get key = true := by
  have hPressed : machine.keypad.isPressed key.val = machine.keypad.levels.get key := by
    simp only [Keypad.isPressed, Nat.mod_eq_of_lt key.isLt]
    rfl
  rw [heldPress, Option.filter_eq_some_iff, hPressed]

theorem heldPress_eq_none_iff {machine : Machine} :
    machine.heldPress = none ↔ ¬ machine.HoldsPress := by
  simp only [Option.eq_none_iff_forall_not_mem, Option.mem_def, heldPress_eq_some_iff,
    HoldsPress, not_exists]

theorem decode?_awaitKey {opcode : Opcode} {x : Register} :
    Instruction.decode? opcode = some (.awaitKey x) ↔
      opcode.toNat = 0xF00A + 0x100 * x.val := by
  rw [Instruction.decode?_eq_some_iff]
  simp only [Instruction.Fits, Instruction.encode, Instruction.registerConstant, true_and]
  omega

/-- An executed `FX0A` goes on with the press or begins to wait. -/
theorem step_of_fetches_awaitKey {machine : Machine} {opcode : Opcode} {x : Register}
    (hFetches : machine.Fetches opcode) (hOpcode : opcode.toNat = 0xF00A + 0x100 * x.val) :
    machine.step =
      (.ok ((machine.recording opcode).awaitKey x).signal.outcome,
        ((machine.recording opcode).awaitKey x).next) :=
  step_of_steps (.executed hFetches (decode?_awaitKey.mpr hOpcode) rfl)

/-- The two ways a step can be about a key. -/
theorem AwaitsKey.cases {machine : Machine} {x : Register} (hAwaits : machine.AwaitsKey x) :
    (machine.fault = none ∧ machine.awaiting = some x) ∨
      machine.awaiting = none ∧ machine.Fetches machine.upcoming ∧
        machine.upcoming.toNat = 0xF00A + 0x100 * x.val := by
  obtain ⟨hFault, hWaiting | ⟨hReady, hInside, hWord⟩⟩ := hAwaits
  · exact Or.inl ⟨hFault, hWaiting⟩
  · exact Or.inr ⟨hReady, fetches_upcoming ⟨hFault, hReady⟩ hInside,
      machine.toNat_upcoming.trans hWord⟩

theorem awaitsKey_of_fetches {machine : Machine} {opcode : Opcode} {x : Register}
    (hFetches : machine.Fetches opcode) (hOpcode : opcode.toNat = 0xF00A + 0x100 * x.val) :
    machine.AwaitsKey x :=
  ⟨hFetches.fault, Or.inr ⟨hFetches.awaiting, hFetches.inside, hFetches.word ▸ hOpcode⟩⟩

/-- With a press to use, such a step stores its key and goes on. -/
theorem step_of_usablePress {machine : Machine} {x : Register} {key : Key}
    (hAwaits : machine.AwaitsKey x) (hPress : machine.usablePress = some key) :
    machine.step.1 = .ok .advanced ∧ machine.step.2.value x = UInt8.ofNat key.val ∧
      machine.step.2.keypad = machine.keypad.clearLatch ∧ machine.step.2.awaiting = none := by
  rcases hAwaits.cases with ⟨hFault, hWaiting⟩ | ⟨hReady, hFetches, hOpcode⟩
  · simp only [usablePress, hWaiting] at hPress
    rw [step_of_steps (.resumed hFault hWaiting hPress)]
    refine ⟨rfl, ?_, rfl, rfl⟩
    simp [value, resumed]
  · simp only [usablePress, hReady] at hPress
    have hHeld : (machine.recording machine.upcoming).heldPress = some key := hPress
    rw [step_of_fetches_awaitKey hFetches hOpcode, awaitKey_of_heldPress x hHeld]
    refine ⟨rfl, ?_, rfl, hReady⟩
    simp [value, Effect.next, advance, setValue]

/-- Without one it leaves the machine waiting. -/
theorem step_of_no_usablePress {machine : Machine} {x : Register}
    (hAwaits : machine.AwaitsKey x) (hPress : machine.usablePress = none) :
    machine.step.1 = .ok .blocked ∧ machine.step.2.keypad = machine.keypad.clearLatch ∧
      machine.step.2.awaiting = some x := by
  rcases hAwaits.cases with ⟨hFault, hWaiting⟩ | ⟨hReady, hFetches, hOpcode⟩
  · simp only [usablePress, hWaiting] at hPress
    rw [step_of_steps (.waiting hFault hWaiting hPress)]
    refine ⟨rfl, ?_, hWaiting⟩
    exact (Keypad.clearLatch_of_none hPress).symm
  · simp only [usablePress, hReady] at hPress
    have hHeld : (machine.recording machine.upcoming).heldPress = none := hPress
    rw [step_of_fetches_awaitKey hFetches hOpcode, awaitKey_of_no_heldPress x hHeld]
    exact ⟨rfl, rfl, rfl⟩

/-- Every other step leaves the keypad and the key wait alone. -/
theorem step_of_not_awaitsKey {machine : Machine} (hOther : ∀ x, ¬ machine.AwaitsKey x) :
    machine.step.1 ≠ .ok .blocked ∧ machine.step.2.keypad = machine.keypad ∧
      machine.step.2.awaiting = machine.awaiting := by
  have hSteps := machine.steps_step
  generalize machine.step.1 = result, machine.step.2 = next at hSteps
  cases hSteps with
  | halted hFault => exact ⟨nofun, rfl, rfl⟩
  | waiting hFault hAwaiting hLatch => exact absurd ⟨hFault, Or.inl hAwaiting⟩ (hOther _)
  | resumed hFault hAwaiting hLatch => exact absurd ⟨hFault, Or.inl hAwaiting⟩ (hOther _)
  | outside hReady hOutside => exact ⟨nofun, rfl, rfl⟩
  | unknown hFetches hDecode => exact ⟨nofun, rfl, rfl⟩
  | failed hFetches hDecode hEffect => exact ⟨nofun, rfl, rfl⟩
  | @executed opcode instruction done hFetches hDecode hEffect =>
    have hFootprint := footprint_of_effect hEffect
    have hTakes : instruction.takesKey = false := by
      rw [← Bool.not_eq_true, Instruction.takesKey_iff]
      rintro ⟨x, rfl⟩
      exact hOther x (awaitsKey_of_fetches hFetches (decode?_awaitKey.mp hDecode))
    refine ⟨?_, hFootprint.keypad hTakes, hFootprint.awaiting hTakes⟩
    cases hSignal : done.signal with
    | wait =>
      have hGoesOn := hFootprint.goesOn hTakes
      rw [hSignal] at hGoesOn
      contradiction
    | proceed | draw => exact nofun

/-- A step about a key empties the latch, whether it could use the press or not. -/
theorem keypad_of_awaitsKey {machine : Machine} {x : Register}
    (hAwaits : machine.AwaitsKey x) :
    machine.step.2.keypad = machine.keypad.clearLatch := by
  cases hPress : machine.usablePress with
  | some key => exact (step_of_usablePress hAwaits hPress).2.2.1
  | none => exact (step_of_no_usablePress hAwaits hPress).2.1

/-- A step blocks exactly if it leaves the machine waiting. -/
theorem blocked_iff_awaiting {machine : Machine} {outcome : Outcome}
    (hResult : machine.step.1 = .ok outcome) :
    outcome = .blocked ↔ ∃ x, machine.step.2.awaiting = some x := by
  by_cases hAwaits : ∃ x, machine.AwaitsKey x
  · obtain ⟨x, hAwaits⟩ := hAwaits
    cases hPress : machine.usablePress with
    | some key =>
      obtain ⟨hAdvanced, -, -, hAwaiting⟩ := step_of_usablePress hAwaits hPress
      rw [hAdvanced] at hResult
      cases hResult
      simp [hAwaiting]
    | none =>
      obtain ⟨hBlocked, -, hAwaiting⟩ := step_of_no_usablePress hAwaits hPress
      rw [hBlocked] at hResult
      cases hResult
      simp [hAwaiting]
  · have hOther : ∀ x, ¬ machine.AwaitsKey x := not_exists.mp hAwaits
    obtain ⟨hGoesOn, -, hAwaiting⟩ := step_of_not_awaitsKey hOther
    have hFault : machine.fault = none := by
      cases hFault : machine.fault with
      | none => rfl
      | some fault =>
        rw [step_of_steps (.halted hFault)] at hResult
        contradiction
    have hReady : machine.awaiting = none :=
      Option.eq_none_iff_forall_not_mem.mpr fun x hWaiting => hOther x ⟨hFault, Or.inl hWaiting⟩
    rw [hResult, Ne, Except.ok.injEq] at hGoesOn
    rw [hAwaiting, hReady]
    exact iff_of_false hGoesOn nofun

theorem awaitsKey_iff {machine : Machine} {x : Register} (hReady : machine.Ready)
    (hInside : machine.counter.toNat + 1 < 4096) :
    machine.AwaitsKey x ↔ machine.word = 0xF00A + 0x100 * x.val := by
  simp [AwaitsKey, hReady.fault, hReady.awaiting, hInside]

/-- A ready machine blocks on an `FX0A` that finds no press to use, and on nothing else. -/
theorem blocked_iff {machine : Machine} (hReady : machine.Ready)
    (hInside : machine.counter.toNat + 1 < 4096) :
    machine.step.1 = .ok .blocked ↔
      (∃ x : Register, machine.word = 0xF00A + 0x100 * x.val) ∧ ¬ machine.HoldsPress := by
  have hUsable : machine.usablePress = machine.heldPress := by
    simp only [usablePress, hReady.awaiting]
  simp only [← awaitsKey_iff hReady hInside, ← heldPress_eq_none_iff, ← hUsable]
  constructor
  · intro hBlocked
    by_cases hAwaits : ∃ x, machine.AwaitsKey x
    · obtain ⟨x, hAwaits⟩ := hAwaits
      cases hPress : machine.usablePress with
      | none => exact ⟨⟨x, hAwaits⟩, rfl⟩
      | some key =>
        have hAdvanced := (step_of_usablePress hAwaits hPress).1
        rw [hBlocked] at hAdvanced
        cases hAdvanced
    · exact absurd hBlocked (step_of_not_awaitsKey (not_exists.mp hAwaits)).1
  · rintro ⟨⟨x, hAwaits⟩, hPress⟩
    exact (step_of_no_usablePress hAwaits hPress).1

end Machine
end ChipEight
