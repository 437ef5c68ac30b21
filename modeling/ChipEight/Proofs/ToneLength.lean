import ChipEight.Proofs.Tone
import ChipEight.Proofs.WriteSets

/-!
# The length of a tone

A program asks for a tone by storing its length in the sound countdown, and the host hears of it at
the end of the frame only, after the tick of that frame.  So a tone of `n` is started at the end of
the frame that stores it, is stopped at the end of the frame `n - 1` frames later, and is never
heard if `n` is zero or one.  Only the last store of a frame counts.  Nothing else that the program
does has a part in this, and a frame that the machine spends waiting for a key ticks like any other.

* `Machine.storedSound?`, `Machine.sound_step` — what a step does to the sound countdown;
* `Machine.sound_cycles`, `Session.sound_frame` — what the cycles of a frame do to it, and what is
  left of that after the tick;
* `Session.StoresTone` — a frame stores the length of a tone, and nothing interferes with it;
* `Session.sound_reached` — the countdown in the frames after the store, by induction;
* `Session.tone_lasts_as_stored` — when the tone is started and stopped.
-/

namespace ChipEight

namespace Machine

/-! ## Storing the length of a tone -/

/-- What the next step stores in the sound countdown, if it executes an `FX18`. -/
def storedSound? (machine : Machine) : Option UInt8 :=
  if machine.Ready ∧ machine.counter.toNat + 1 < 4096 ∧
      Opcode.group machine.upcoming = 0xF ∧ Opcode.constant machine.upcoming = 0x18 then
    some (machine.value (Opcode.x machine.upcoming))
  else none

variable {machine : Machine}

/-- This is the opcode of the one instruction that stores in the sound countdown. -/
theorem storedSound?_eq_some_iff {value : UInt8} :
    machine.storedSound? = some value ↔
      ∃ x, machine.Executes (.setSound x) ∧ machine.value x = value := by
  constructor
  · intro hStored
    unfold storedSound? at hStored
    split at hStored
    · next hOpcode =>
      obtain ⟨hReady, hInside, hGroup, hConstant⟩ := hOpcode
      have hDigits := Instruction.registerConstant_digits hGroup
      rw [hConstant] at hDigits
      refine ⟨_, ⟨_, fetches_upcoming hReady hInside, ?_⟩, Option.some.inj hStored⟩
      exact Instruction.decode?_of_encode trivial hDigits
    · contradiction
  · rintro ⟨x, ⟨opcode, hFetches, hDecode⟩, rfl⟩
    obtain rfl : opcode = machine.upcoming :=
      UInt16.toNat_inj.mp (hFetches.word.trans machine.toNat_upcoming.symm)
    have hEncode : 0xF000 + 0x100 * x.val + 0x18 = machine.upcoming.toNat :=
      (Instruction.encode_of_decode? hDecode).2
    have hX : x.val < 16 := x.isLt
    have hGroup : Opcode.group machine.upcoming = 0xF := by
      rw [Opcode.group]
      omega
    have hConstant : Opcode.constant machine.upcoming = 0x18 := by
      rw [← UInt8.toNat_inj, Opcode.toNat_constant]
      show machine.upcoming.toNat % 0x100 = 0x18
      omega
    have hRegister : Opcode.x machine.upcoming = x := by
      apply Fin.ext
      rw [Opcode.val_x]
      omega
    rw [storedSound?, if_pos ⟨hFetches.toReady, hFetches.inside, hGroup, hConstant⟩, hRegister]

/-- No other instruction writes the sound countdown. -/
theorem sound_not_mem_writeSet {instruction : Instruction Register}
    (hOther : ∀ x, instruction ≠ .setSound x) : .sound ∉ machine.writeSet instruction := by
  cases instruction with
  | setSound x => exact absurd rfl (hOther x)
  | arith op x y => cases op <;> simp [writeSet, ArithOp.setsFlag]
  | awaitKey x => cases hHeld : machine.heldPress <;> simp [writeSet, hHeld]
  | _ => simp [writeSet, pointedParts]

theorem not_executes_of_storedSound?_eq_none (hStored : machine.storedSound? = none)
    (x : Register) : ¬ machine.Executes (.setSound x) := by
  intro hExecutes
  have hSome := storedSound?_eq_some_iff.mpr ⟨x, hExecutes, rfl⟩
  rw [hStored] at hSome
  contradiction

/-- A step leaves the sound countdown at what it stores there, or alone if it stores nothing. -/
theorem sound_step (machine : Machine) :
    machine.step.2.sound = (machine.storedSound?.map Countdown.mk).getD machine.sound := by
  cases hStored : machine.storedSound? with
  | some value =>
    obtain ⟨x, ⟨opcode, hFetches, hDecode⟩, rfl⟩ := storedSound?_eq_some_iff.mp hStored
    rw [step_of_steps (.executed hFetches hDecode rfl)]
    rfl
  | none =>
    have hSteps := machine.steps_step
    generalize machine.step.1 = result, machine.step.2 = next at hSteps
    cases hSteps with
    | @executed opcode instruction done hFetches hDecode hEffect =>
      have hOther : ∀ x, instruction ≠ .setSound x := by
        rintro x rfl
        exact not_executes_of_storedSound?_eq_none hStored x ⟨opcode, hFetches, hDecode⟩
      exact sameAt_of_effect hEffect (sound_not_mem_writeSet hOther)
    | halted | waiting | resumed | outside | unknown | failed => rfl

/-! ## The cycles of a frame -/

/-- What the cycles of a frame store in the sound countdown, in order. -/
def storedSounds (limit : Nat) (machine : Machine) : List UInt8 :=
  (cycleStarts limit machine).filterMap storedSound?

/-- The last store of a frame counts. -/
theorem sound_cycles (limit : Nat) (report : FrameReport) (machine : Machine) :
    (cycles limit report machine).2.sound =
      ((storedSounds limit machine).getLast?.map Countdown.mk).getD machine.sound := by
  induction limit generalizing report machine with
  | zero => rfl
  | succ limit ih =>
    have hStep := machine.sound_step
    rcases machine.cycleEnds_or with hEnds | ⟨outcome, hGoesOn, hResult⟩
    · rw [cycles_snd_of_cycleEnds hEnds, hStep, storedSounds, cycleStarts_of_cycleEnds hEnds]
      cases hStored : machine.storedSound? with
      | none => simp [hStored]
      | some value => simp [hStored]
    · rw [cycles_of_ok hGoesOn hResult, ih, hStep, storedSounds, storedSounds,
        cycleStarts_of_ok hGoesOn hResult]
      cases hStored : machine.storedSound? with
      | none => rw [List.filterMap_cons_none hStored]; rfl
      | some value =>
        -- a later store in the same frame replaces this one
        rw [List.filterMap_cons_some hStored, List.getLast?_cons]
        cases ((cycleStarts limit machine.step.2).filterMap storedSound?).getLast? with
        | none => rfl
        | some later => rfl

end Machine

namespace Session

open Event

/-- What a frame stores in the sound countdown, in order. -/
def storedSounds (session : Session) (reading : Levels) : List UInt8 :=
  Machine.storedSounds session.pace.cyclesPerFrame (session.machine.setKeys reading)

variable {session : Session} {reading : Levels} {report : FrameReport}

/-- A frame that gets through leaves the sound countdown at one less than its last store. -/
theorem sound_frame (hResult : (session.frame reading).result = .ok report) :
    (session.frame reading).session.machine.sound =
      (((session.storedSounds reading).getLast?.map Countdown.mk).getD
        session.machine.sound).tick := by
  rcases session.frame_cases reading with ⟨_, machine, hCycles, hFrame⟩ | ⟨_, _, -, hFrame⟩
  · have hSound := Machine.sound_cycles session.pace.cyclesPerFrame .empty
      (session.machine.setKeys reading)
    rw [hCycles] at hSound
    rw [hFrame]
    exact congrArg Countdown.tick hSound
  · rw [hFrame] at hResult
    contradiction

/-- The tone comes last in a frame that gets through. -/
theorem events_frame (hResult : (session.frame reading).result = .ok report) :
    ∃ shown, tones shown = [] ∧
      (session.frame reading).events =
        shown ++ tone session.playing (session.frame reading).session.playing := by
  rcases session.frame_cases reading with ⟨_, machine, -, hFrame⟩ | ⟨_, _, -, hFrame⟩
  · rw [hFrame]
    exact ⟨_, tones_presentIf _ _, rfl⟩
  · rw [hFrame] at hResult
    contradiction

/-! ## The frames after a store -/

/-- The session after a number of frames. -/
def reached (session : Session) (readings : Nat → Levels) (count : Nat) : Session :=
  (session.after (frameActions readings count)).2

theorem after_frameActions_succ (session : Session) (readings : Nat → Levels) (count : Nat) :
    session.after (frameActions readings (count + 1)) =
      ((session.after (frameActions readings count)).1 ++
          ((session.reached readings count).frame (readings count)).events,
        ((session.reached readings count).frame (readings count)).session) := by
  rw [frameActions, List.range_succ, List.map_append, ← frameActions, after_append]
  simp only [List.map_cons, List.map_nil, after, act, List.append_nil]
  rfl

theorem reached_succ (session : Session) (readings : Nat → Levels) (count : Nat) :
    session.reached readings (count + 1) =
      ((session.reached readings count).frame (readings count)).session :=
  congrArg Prod.snd (session.after_frameActions_succ readings count)

/-- The first of some frames stores the length of a tone, with the tone off before.  So many frames
after it get through, and none of these stores another length. -/
structure StoresTone (session : Session) (readings : Nat → Levels) (length : UInt8) : Prop where
  silent : session.playing = false
  stored : (session.storedSounds (readings 0)).getLast? = some length
  getsThrough : ∀ place ≤ length.toNat,
    ∃ report, ((session.reached readings place).frame (readings place)).result = .ok report
  undisturbed : ∀ place < length.toNat,
    (session.reached readings (place + 1)).storedSounds (readings (place + 1)) = []

variable {readings : Nat → Levels} {length : UInt8}

/-- Every frame takes one off the countdown, the one with the store included. -/
theorem sound_reached (hTone : session.StoresTone readings length) {place : Nat}
    (hPlace : place ≤ length.toNat) :
    (session.reached readings (place + 1)).machine.sound.value.toNat =
      length.toNat - (place + 1) := by
  have hFrame {place : Nat} (hPlace : place ≤ length.toNat) :
      let current := session.reached readings place
      (session.reached readings (place + 1)).machine.sound.value.toNat =
        (((current.storedSounds (readings place)).getLast?.map Countdown.mk).getD
          current.machine.sound).value.toNat - 1 := by
    obtain ⟨report, hResult⟩ := hTone.getsThrough place hPlace
    rw [reached_succ, sound_frame hResult, Countdown.toNat_tick]
  induction place with
  | zero =>
    have hFirst : session.reached readings 0 = session := rfl
    rw [hFrame hPlace, hFirst, hTone.stored]
    rfl
  | succ place ih =>
    -- the frame stores nothing, so that the countdown goes on from where it was
    rw [hFrame hPlace, hTone.undisturbed place hPlace, List.getLast?_nil, Option.map_none,
      Option.getD_none, ih (Nat.le_of_succ_le hPlace)]
    omega

/-- The tone is on as long as the countdown runs after the tick. -/
theorem playing_reached (hTone : session.StoresTone readings length) {place : Nat}
    (hPlace : place ≤ length.toNat) :
    (session.reached readings (place + 1)).playing = decide (place + 1 < length.toNat) := by
  obtain ⟨report, hResult⟩ := hTone.getsThrough place hPlace
  have hSound := sound_reached hTone hPlace
  have hPlaying := playing_of_frame_ok hResult
  rw [← reached_succ, ne_eq, ← UInt8.toNat_inj, hSound] at hPlaying
  rw [Bool.eq_iff_iff, hPlaying, decide_eq_true_iff]
  show ¬ length.toNat - (place + 1) = 0 ↔ _
  omega

end Session

namespace Event

/-- What a host does about a tone of some length at the end of a frame, which is counted from the
frame that stores the length. -/
def toneAt (length place : Nat) : List Event :=
  if length < 2 then [] else if place = 0 then [.play] else if place + 1 = length then [.pause]
  else []

/-- After the start of the tone, the host follows the countdown. -/
theorem toneAt_succ (length place : Nat) :
    toneAt length (place + 1) =
      tone (decide (place + 1 < length)) (decide (place + 2 < length)) := by
  by_cases hNext : place + 2 < length
  · have hNow : place + 1 < length := by omega
    have hLong : ¬ length < 2 := by omega
    have hEarly : ¬ place + 1 + 1 = length := by omega
    simp [toneAt, tone, hNext, hNow, hLong, hEarly]
  · by_cases hNow : place + 1 < length
    · have hLong : ¬ length < 2 := by omega
      have hLast : place + 1 + 1 = length := by omega
      simp [toneAt, tone, hNow, hLong, hLast]
    · have hOver : ¬ place + 1 + 1 = length := by omega
      simp [toneAt, tone, hNext, hNow, hOver]

/-- Over all the frames the tone is started once and stopped once, if it is heard at all. -/
theorem flatMap_toneAt (length : Nat) :
    (List.range (length + 1)).flatMap (toneAt length) =
      if 2 ≤ length then [.play, .pause] else [] := by
  match length with
  | 0 => rfl
  | 1 => rfl
  | between + 2 =>
    have hRange : List.range (between + 3) =
        0 :: (List.range between).map (· + 1) ++ [between + 1, between + 2] := by
      rw [List.range_succ, List.range_succ, List.range_succ_eq_map, List.append_assoc]
      rfl
    have hBetween : ((List.range between).map (· + 1)).flatMap (toneAt (between + 2)) = [] := by
      rw [List.flatMap_eq_nil_iff, List.forall_mem_map]
      intro place hMem
      have hEarly : place ≠ between := Nat.ne_of_lt (List.mem_range.mp hMem)
      simp [toneAt, hEarly]
    have hLong : ¬ between + 2 < 2 := by omega
    rw [hRange, List.flatMap_append, List.flatMap_cons, hBetween]
    simp [toneAt, hLong]

end Event

namespace Session

open Event

variable {session : Session} {readings : Nat → Levels} {length : UInt8}

/-- What the host does at the end of each of the frames. -/
theorem tone_reached (hTone : session.StoresTone readings length) {place : Nat}
    (hPlace : place ≤ length.toNat) :
    tone (session.reached readings place).playing (session.reached readings (place + 1)).playing =
      toneAt length.toNat place := by
  rw [playing_reached hTone hPlace]
  cases place with
  | zero =>
    have hSilent : (session.reached readings 0).playing = false := hTone.silent
    rw [hSilent]
    by_cases hLong : 1 < length.toNat
    · have hHeard : ¬ length.toNat < 2 := by omega
      simp [toneAt, tone, hLong, hHeard]
    · have hUnheard : length.toNat < 2 := by omega
      simp [toneAt, tone, hLong, hUnheard]
  | succ place => rw [playing_reached hTone (Nat.le_of_succ_le hPlace), toneAt_succ]

theorem events_reached (hTone : session.StoresTone readings length) {place : Nat}
    (hPlace : place ≤ length.toNat) :
    ∃ shown, tones shown = [] ∧
      ((session.reached readings place).frame (readings place)).events =
        shown ++ toneAt length.toNat place := by
  obtain ⟨report, hResult⟩ := hTone.getsThrough place hPlace
  have hEvents := events_frame hResult
  rwa [← reached_succ, tone_reached hTone hPlace] at hEvents

theorem tones_reached (hTone : session.StoresTone readings length) {count : Nat}
    (hCount : count ≤ length.toNat + 1) :
    tones (session.after (frameActions readings count)).1 =
      (List.range count).flatMap (toneAt length.toNat) := by
  induction count with
  | zero => rfl
  | succ count ih =>
    have hTones := (session.reached readings count).tones_frame (readings count)
    rw [← reached_succ, tone_reached hTone (Nat.le_of_succ_le_succ hCount)] at hTones
    rw [after_frameActions_succ, tones_append, ih (Nat.le_of_succ_le hCount), hTones,
      List.range_succ, List.flatMap_append, List.flatMap_singleton]

/-- A session without a tone comes to a frame whose last `FX18` stores a length, and so many frames
after it get through as well and execute no other `FX18`.  At the end of the first of these frames
the tone is started exactly if the length is two or more.  It is then stopped at the end of the
frame that is one less than the length further on, and the host does nothing else about it. -/
theorem tone_lasts_as_stored (hTone : session.StoresTone readings length) :
    (∀ place ≤ length.toNat, ∃ shown, tones shown = [] ∧
      ((session.reached readings place).frame (readings place)).events =
        shown ++ toneAt length.toNat place) ∧
    tones (session.after (frameActions readings (length.toNat + 1))).1 =
      if 2 ≤ length.toNat then [.play, .pause] else [] := by
  refine ⟨fun place hPlace => events_reached hTone hPlace, ?_⟩
  rw [tones_reached hTone (Nat.le_refl _), flatMap_toneAt]

/-- A program that stores the length five, replaces it with three and waits for a key.  The tone
is stopped two frames later, in a frame in which the machine still waits. -/
theorem tone_lasts_as_stored_waiting :
    let machine := ((Machine.fresh (Entropy.ofWords fun _ => 0)).run
      [.load [0x61, 0x05, 0xF1, 0x18, 0x62, 0x03, 0xF2, 0x18, 0xF4, 0x0A]]).2
    let session := start machine Pace.usual
    let readings : Nat → Levels := fun _ => Levels.released
    session.StoresTone readings 3 ∧ session.storedSounds (readings 0) = [5, 3] ∧
      (session.reached readings 2).machine.awaiting = some 4 ∧
      (∃ shown, tones shown = [] ∧
        ((session.reached readings 2).frame (readings 2)).events = shown ++ [.pause]) ∧
      tones (session.after (frameActions readings 4)).1 = [.play, .pause] := by
  intro machine session readings
  have hRun : session.storedSounds (readings 0) = [5, 3] ∧
      (∀ place ≤ 3,
        ((session.reached readings place).frame (readings place)).result.isOk = true) ∧
      (∀ place < 3,
        (session.reached readings (place + 1)).storedSounds (readings (place + 1)) = []) ∧
      (session.reached readings 2).machine.awaiting = some 4 := by
    decide +kernel
  obtain ⟨hStored, hResults, hUndisturbed, hAwaiting⟩ := hRun
  have hTone : session.StoresTone readings 3 := by
    refine ⟨rfl, by rw [hStored]; rfl, fun place hPlace => ?_, hUndisturbed⟩
    have hOk := hResults place hPlace
    cases hResult : ((session.reached readings place).frame (readings place)).result with
    | ok report => exact ⟨report, rfl⟩
    | error fault =>
      rw [hResult] at hOk
      contradiction
  obtain ⟨hEvents, hTones⟩ := tone_lasts_as_stored hTone
  exact ⟨hTone, hStored, hAwaiting, hEvents 2 (by decide), hTones⟩

end Session
end ChipEight
