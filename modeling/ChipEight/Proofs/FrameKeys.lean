import ChipEight.Proofs.Frames
import ChipEight.Proofs.Invariant
import ChipEight.Proofs.Presses

/-!
# Presses over the cycles of a frame

At its start a frame reports the levels of all keys, so that at most one press is latched
while its cycles run: the lowest key that went down.  Its key is down for the whole frame,
so that the first step that is about a key uses it, and there is nothing left for the steps
after that one.

* `Machine.CompletesWait` — the next step stores a key;
* `Machine.blocks_of_latch` — where nothing is latched, every step about a key blocks;
* `Machine.blocks_after_awaitsKey` — after a step about a key, the others of the frame block;
* `Machine.keypad_of_first` — up to the first one the keypad is as the frame found it;
* `Session.frame_uses_the_press` — which press a frame uses, and for which of its steps.
-/

namespace ChipEight
namespace Machine

variable {machine : Machine}

/-- The next step stores a key, for an `FX0A` of its own or for a wait. -/
def CompletesWait (machine : Machine) : Prop :=
  (∃ x, machine.AwaitsKey x) ∧ machine.step.1 = .ok .advanced

theorem not_completesWait_of_blocked (hBlocked : machine.step.1 = .ok .blocked) :
    ¬ machine.CompletesWait := by
  rintro ⟨-, hAdvanced⟩
  rw [hBlocked] at hAdvanced
  cases hAdvanced

/-- Without a latched press no step can use one. -/
theorem usablePress_of_latch (hLatch : machine.keypad.latch = none) :
    machine.usablePress = none := by
  unfold usablePress heldPress
  rw [hLatch]
  split <;> rfl

/-- If the latched key is down, then every step about a key can use it. -/
theorem usablePress_of_down {key : Key} (hLatch : machine.keypad.latch = some key)
    (hDown : machine.keypad.levels.get key = true) : machine.usablePress = some key := by
  unfold usablePress
  split
  · exact hLatch
  · exact heldPress_eq_some_iff.mpr ⟨hLatch, hDown⟩

theorem latch_step_of_none (hLatch : machine.keypad.latch = none) :
    machine.step.2.keypad.latch = none := by
  by_cases hAwaits : ∃ x, machine.AwaitsKey x
  · obtain ⟨x, hAwaits⟩ := hAwaits
    rw [keypad_of_awaitsKey hAwaits, Keypad.clearLatch]
  · rw [(step_of_not_awaitsKey (not_exists.mp hAwaits)).2.1, hLatch]

/-! ## The steps of a frame that are about a key -/

variable {limit : Nat}

/-- Where nothing is latched, every step about a key blocks, in the whole frame. -/
theorem blocks_of_latch (hLatch : machine.keypad.latch = none) {start : Machine} {x : Register}
    (hMem : start ∈ cycleStarts limit machine) (hAwaits : start.AwaitsKey x) :
    start.step.1 = .ok .blocked := by
  have hNone : start.keypad.latch = none :=
    holds_of_mem_cycleStarts (P := fun start => start.keypad.latch = none)
      (fun _ => latch_step_of_none) hLatch hMem
  exact (step_of_no_usablePress hAwaits (usablePress_of_latch hNone)).1

/-- After a step about a key, the other steps about a key block. -/
theorem blocks_after_awaitsKey {before after : List Machine} {start later : Machine}
    {x y : Register} (hCycles : cycleStarts limit machine = before ++ start :: after)
    (hAwaits : start.AwaitsKey x) (hMem : later ∈ after) (hLater : later.AwaitsKey y) :
    later.step.1 = .ok .blocked := by
  obtain ⟨-, rest, rfl⟩ :=
    cycleStarts_split (P := fun _ => True) hCycles (fun _ _ _ => trivial) trivial
  refine blocks_of_latch ?_ hMem hLater
  rw [keypad_of_awaitsKey hAwaits, Keypad.clearLatch]

/-- Up to the first step about a key the keypad is as the frame found it. -/
theorem keypad_of_first {before after : List Machine} {start : Machine}
    (hCycles : cycleStarts limit machine = before ++ start :: after)
    (hFirst : ∀ earlier ∈ before, ∀ y, ¬ earlier.AwaitsKey y) :
    start.keypad = machine.keypad := by
  refine (cycleStarts_split (P := fun start => start.keypad = machine.keypad) hCycles
    (fun earlier hMem hKeypad => ?_) rfl).1
  rw [(step_of_not_awaitsKey (hFirst earlier hMem)).2.1, hKeypad]

/-- A report of all keys latches the lowest key that it presses, and nothing else. -/
theorem latch_setKeys_iff {levels : Levels} {key : Key} :
    (machine.setKeys levels).keypad.latch = some key ↔
      machine.PressesFirst key (.setKeys levels) :=
  Keypad.latch_setAll

/-- The key of the press is down. -/
theorem down_of_pressesFirst {levels : Levels} {key : Key}
    (hPress : machine.PressesFirst key (.setKeys levels)) :
    (machine.setKeys levels).keypad.levels.get key = true := by
  simpa [setKeys] using hPress.1.1

theorem latch_setKeys_of_no_press {levels : Levels}
    (hNone : ∀ key, ¬ machine.Presses key (.setKeys levels)) :
    (machine.setKeys levels).keypad.latch = none :=
  Option.eq_none_iff_forall_not_mem.mpr fun key hKey => hNone key (latch_setKeys_iff.mp hKey).1

/-- A machine that waits when a report presses a key goes on in its next step, behind the
`FX0A` and with the key stored. -/
theorem step_of_waiting {levels : Levels} {x : Register} {key : Key}
    (hReachable : machine.Reachable) (hFault : machine.fault = none)
    (hAwaiting : machine.awaiting = some x)
    (hPress : machine.PressesFirst key (.setKeys levels)) :
    let next := (machine.setKeys levels).step
    next.1 = .ok .advanced ∧ (next.2.value x).toNat = key.val ∧
      next.2.counter.toNat = machine.counter.toNat + 2 ∧ next.2.awaiting = none := by
  intro next
  have hStep : next = (.ok .advanced, (machine.setKeys levels).resumed x key) :=
    step_of_steps (.resumed hFault hAwaiting (latch_setKeys_iff.mpr hPress))
  obtain ⟨-, hCounter, -⟩ := hReachable.invariant.awaiting x hAwaiting
  rw [hStep]
  refine ⟨rfl, ?_, ?_, rfl⟩
  · rw [resumed, value, Registers.get_set, if_pos rfl, key.toNat_ofNat]
  · show (CounterStep.next.apply machine.counter).toNat = _
    exact CounterStep.toNat_apply (by omega) .next

end Machine

namespace Session

open Machine

/-- A frame that finds the machine waiting and brings no press does nothing but report the
keys, tick, and take the mark of a changed screen away. -/
theorem frame_of_waiting {session : Session} {reading : Levels} {x : Register}
    (hFault : session.machine.fault = none) (hAwaiting : session.machine.awaiting = some x)
    (hNone : ∀ key, ¬ session.machine.Presses key (.setKeys reading)) :
    (session.frame reading).result = .ok ⟨0, true, 0⟩ ∧
      (session.frame reading).session.machine =
        { session.machine with
          keypad := ⟨reading, none⟩
          delay := session.machine.delay.tick
          sound := session.machine.sound.tick
          redraw := false } := by
  have hLatch := latch_setKeys_of_no_press hNone
  have hKeypad : session.machine.keypad.setAll reading = ⟨reading, none⟩ := by
    rw [setKeys, Keypad.setAll_eq] at hLatch
    rw [Keypad.setAll_eq]
    exact congrArg (Keypad.mk reading) hLatch
  have hStep : (session.machine.setKeys reading).step =
      (.ok .blocked, session.machine.setKeys reading) :=
    step_of_steps (.waiting hFault hAwaiting hLatch)
  obtain ⟨limit, hLimit⟩ : ∃ limit, session.pace.cyclesPerFrame = limit + 1 :=
    Nat.exists_eq_add_one.mpr session.pace.cyclesPerFrame_pos
  have hFrame : session.frame reading =
      session.endFrame ⟨0, true, 0⟩ (session.machine.setKeys reading) := by
    rw [frame, hLimit, cycles_of_blocked (congrArg Prod.fst hStep), hStep]
    rfl
  rw [hFrame]
  refine ⟨rfl, ?_⟩
  simp only [endFrame, tick, takeRedraw, setKeys, hKeypad]

/-- No press is lost, repeated or invented over the steps that a frame consists of.  At most
one of them stores a key, and none does if no key went down since the frame before.  Otherwise
the first step about a key stores the lowest key that went down, and all the others block.  So a
machine that waits at the start of the frame goes on at once if a key went down.  If none did,
the frame is over at once, and both countdowns have lost one unless they were at zero. -/
theorem frame_uses_the_press (session : Session) (reading : Levels)
    (hReachable : session.machine.Reachable) (hFault : session.machine.fault = none) :
    let begun := session.machine.setKeys reading
    let cycles := begun.cycleStarts session.pace.cyclesPerFrame
    let frame := session.frame reading
    session.FrameSteps reading cycles ∧
      (∀ before start after, cycles = before ++ start :: after → start.CompletesWait →
        ∀ later ∈ after, ¬ later.CompletesWait) ∧
      ((∀ key, ¬ session.machine.Presses key (.setKeys reading)) →
        ∀ start ∈ cycles, ¬ start.CompletesWait) ∧
      (∀ key, session.machine.PressesFirst key (.setKeys reading) →
        ∀ before start after x, cycles = before ++ start :: after →
          (∀ earlier ∈ before, ∀ y, ¬ earlier.AwaitsKey y) → start.AwaitsKey x →
          start.step.1 = .ok .advanced ∧ (start.step.2.value x).toNat = key.val ∧
            ∀ later ∈ after, ∀ y, later.AwaitsKey y → later.step.1 = .ok .blocked) ∧
      ∀ x, session.machine.awaiting = some x →
        (∀ key, session.machine.PressesFirst key (.setKeys reading) →
          begun.step.1 = .ok .advanced ∧ (begun.step.2.value x).toNat = key.val ∧
            begun.step.2.counter.toNat = session.machine.counter.toNat + 2 ∧
            begun.step.2.awaiting = none) ∧
        ((∀ key, ¬ session.machine.Presses key (.setKeys reading)) →
          frame.result = .ok ⟨0, true, 0⟩ ∧
            frame.session.machine =
              { session.machine with
                keypad := ⟨reading, none⟩
                delay := session.machine.delay.tick
                sound := session.machine.sound.tick
                redraw := false } ∧
            frame.session.machine.delay.value.toNat =
              session.machine.delay.value.toNat - 1 ∧
            frame.session.machine.sound.value.toNat =
              session.machine.sound.value.toNat - 1) := by
  intro begun cycles frame
  refine ⟨session.frameSteps_cycleStarts reading, ?_, ?_, ?_, ?_⟩
  · rintro before start after hCycles ⟨⟨x, hAwaits⟩, -⟩ later hMem hCompletes
    obtain ⟨y, hLater⟩ := hCompletes.1
    have hBlocked := blocks_after_awaitsKey hCycles hAwaits hMem hLater
    exact not_completesWait_of_blocked hBlocked hCompletes
  · intro hNone start hMem hCompletes
    obtain ⟨x, hAwaits⟩ := hCompletes.1
    have hBlocked := blocks_of_latch (latch_setKeys_of_no_press hNone) hMem hAwaits
    exact not_completesWait_of_blocked hBlocked hCompletes
  · intro key hPress before start after x hCycles hFirst hAwaits
    have hLatch := latch_setKeys_iff.mpr hPress
    have hKeypad := keypad_of_first hCycles hFirst
    have hUsable : start.usablePress = some key :=
      usablePress_of_down (hKeypad ▸ hLatch) (hKeypad ▸ down_of_pressesFirst hPress)
    obtain ⟨hAdvanced, hValue, -⟩ := step_of_usablePress hAwaits hUsable
    refine ⟨hAdvanced, hValue ▸ key.toNat_ofNat, fun later hMem y hLater => ?_⟩
    exact blocks_after_awaitsKey hCycles hAwaits hMem hLater
  · intro x hAwaiting
    constructor
    · intro key hPress
      exact step_of_waiting hReachable hFault hAwaiting hPress
    · intro hNone
      obtain ⟨hResult, hMachine⟩ := frame_of_waiting hFault hAwaiting hNone
      refine ⟨hResult, hMachine, ?_, ?_⟩
      · rw [hMachine]
        exact session.machine.delay.toNat_tick
      · rw [hMachine]
        exact session.machine.sound.toNat_tick

/-- A machine that waits for register 5.  A frame in which no key goes down is over at once.  A
frame in which keys 3 and 9 go down stores the lower one in its first step, passes over the
zeros behind the program in the others, and leaves the key stored. -/
theorem frame_uses_the_press_waiting :
    let machine := ((fresh (Entropy.ofWords fun _ => 0)).run [.load [0xF5, 0x0A], .step]).2
    let session := start machine Pace.usual
    let pressed := (Levels.released.set 9 true).set 3 true
    let begun := machine.setKeys pressed
    (session.frame Levels.released).result = .ok ⟨0, true, 0⟩ ∧
      session.FrameSteps pressed (begun.cycleStarts session.pace.cyclesPerFrame) ∧
      begun.step.1 = .ok .advanced ∧ (begun.step.2.value 5).toNat = 3 ∧
      (session.frame pressed).result = .ok ⟨8, false, 7⟩ ∧
      (session.frame pressed).session.machine.value 5 = 3 := by
  intro machine session pressed begun
  have hReachable : machine.Reachable := ⟨_, _, by decide, rfl⟩
  have hFault : machine.fault = none := by decide +kernel
  have hAwaiting : machine.awaiting = some 5 := by decide +kernel
  have hNone : ∀ key : Key, ¬ machine.Presses key (.setKeys Levels.released) := by
    show ∀ key : Key, ¬ (Levels.released.get key = true ∧ machine.keypad.levels.get key = false)
    decide +kernel
  have hFirst : machine.PressesFirst 3 (.setKeys pressed) := by
    show (pressed.get 3 = true ∧ machine.keypad.levels.get 3 = false) ∧
      ∀ other, pressed.get other = true ∧ machine.keypad.levels.get other = false → 3 ≤ other
    decide +kernel
  have hResult : (session.frame pressed).result = .ok ⟨8, false, 7⟩ := by decide +kernel
  have hValue : (session.frame pressed).session.machine.value 5 = 3 := by decide +kernel
  clear_value machine pressed
  obtain ⟨-, -, -, -, hQuiet⟩ :=
    frame_uses_the_press session Levels.released hReachable hFault
  obtain ⟨hSteps, -, -, -, hPressed⟩ := frame_uses_the_press session pressed hReachable hFault
  obtain ⟨hAdvanced, hStored, -⟩ := (hPressed 5 hAwaiting).1 3 hFirst
  exact ⟨((hQuiet 5 hAwaiting).2 hNone).1, hSteps, hAdvanced, hStored, hResult, hValue⟩

end Session
end ChipEight
